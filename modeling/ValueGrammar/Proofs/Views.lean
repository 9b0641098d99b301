import ValueGrammar.Proofs.Machine.Record
import ValueGrammar.Proofs.Meaning

/-!
# `ValueGrammar.Proofs.Views` — the list and the tree of a match are views of one trace

The trace of a match can be read as a flat list, in which scopes are opened and closed, or as a tree.
A machine opens the scope of a reference at once, closes it late, and erases the record of a scope in
which nothing was taken. This module shows that the records of every path are brackets all the same:
those that are not closed are the scopes of the path. So the list of a match is well bracketed, and
the tree built from the records is what one gets by reading the list as brackets.

## Contents
- `TraceItem.Bracketed`, `TraceTree.items`: lists of items, and the walk over a tree.
- `Balanced`, `Unclosed`: the records of scopes that are closed, and of a path.
- `Machine.Expands.unclosed`, `Machine.Leads.unclosed`: every path of a run.
- `Balanced.build`: building a tree from brackets.
- `Machine.runFrom_lookups`, `Dictionary.resolve_touch`: what a match changes in a dictionary.
- `Matcher.list_tree_of_run`: the two views of a match.
-/

namespace ValueGrammar

/-! ## Lists and trees -/

/-- Every scope that is closed is the one opened last, with the same node; no scope stays open, and
every scope has a token in it. -/
inductive TraceItem.Bracketed : List TraceItem → Prop where
  | nil : Bracketed []
  | token {item rest} (hk : item.kind = .token) (h : Bracketed rest) : Bracketed (item :: rest)
  | scope {node inner rest} (hi : Bracketed inner) (ht : TraceItem.tokens inner ≠ [])
      (hr : Bracketed rest) :
      Bracketed ((Entry.opened node).item :: (inner ++ (Entry.closed node).item :: rest))

namespace TraceItem

theorem tokens_append (items more : List TraceItem) :
    tokens (items ++ more) = tokens items ++ tokens more := List.filterMap_append

@[simp] theorem tokens_cons_token {node : Grammar} {value : String} {origin : Option String}
    {rest : List TraceItem} :
    tokens ({ kind := .token, node := some node, token := value, origin } :: rest) =
      value :: tokens rest := rfl

@[simp] theorem tokens_cons_opened {node : Grammar} {rest : List TraceItem} :
    tokens ((Entry.opened node).item :: rest) = tokens rest := rfl

@[simp] theorem tokens_cons_closed {node : Grammar} {rest : List TraceItem} :
    tokens ((Entry.closed node).item :: rest) = tokens rest := rfl

end TraceItem

namespace TraceTree

mutual

/-- The items met on a walk over a tree: a scope is opened before its children and closed after
them. -/
def items : TraceTree → List TraceItem
  | .scope node children =>
    (Entry.opened node).item :: (itemsAll children ++ [(Entry.closed node).item])
  | .token node value origin => [{ kind := .token, node := some node, token := value, origin }]

/-- The items of several trees. -/
def itemsAll : List TraceTree → List TraceItem
  | [] => []
  | t :: ts => t.items ++ itemsAll ts

end

mutual

/-- The tokens of a tree are those met on the walk. -/
theorem tokens_items : ∀ t : TraceTree, TraceItem.tokens t.items = t.tokens
  | .scope node children => by
    rw [items, tokens, TraceItem.tokens_cons_opened, TraceItem.tokens_append,
      TraceItem.tokens_cons_closed, tokens_itemsAll children]
    exact List.append_nil _
  | .token node value origin => rfl

theorem tokens_itemsAll : ∀ ts : List TraceTree, TraceItem.tokens (itemsAll ts) = tokensAll ts
  | [] => rfl
  | t :: ts => by
    rw [itemsAll, tokensAll, TraceItem.tokens_append, tokens_items t, tokens_itemsAll ts]

end

end TraceTree

/-! ## Brackets -/

/-- Records in the order they were made, of scopes that are all closed and none of which is empty. -/
inductive Balanced : List Entry → Prop where
  | nil : Balanced []
  | token {node i t rest} (h : Balanced rest) : Balanced (.token node i t :: rest)
  | scope {node inner rest} (hi : Balanced inner) (hne : inner ≠ []) (hr : Balanced rest) :
      Balanced (.opened node :: (inner ++ .closed node :: rest))

namespace Balanced

variable {es more : List Entry}

theorem append (h : Balanced es) (hm : Balanced more) : Balanced (es ++ more) := by
  induction h with
  | nil => exact hm
  | token _ ih => exact .token ih
  | scope hi hne _ _ ih =>
      rw [List.cons_append, List.append_assoc, List.cons_append]
      exact .scope hi hne ih

/-- The last record does not open a scope. -/
theorem getLast?_ne_opened (h : Balanced es) (node : Grammar) : es.getLast? ≠ some (.opened node) := by
  induction h with
  | nil => simp
  | @token _ _ _ rest _ ih =>
      cases rest with
      | nil => simp
      | cons e rest => simpa [List.getLast?_cons_cons] using ih
  | @scope _ inner rest _ _ _ _ ih =>
      rw [← List.cons_append, List.getLast?_append]
      cases rest with
      | nil => simp
      | cons e rest =>
          rw [List.getLast?_cons_cons]
          cases hlast : (e :: rest).getLast? with
          | none => simp at hlast
          | some last => rw [hlast] at ih; simpa using ih

/-- Where anything is recorded a token is. -/
theorem tokens_ne_nil (h : Balanced es) (hne : es ≠ []) :
    TraceItem.tokens (es.map Entry.item) ≠ [] := by
  induction h with
  | nil => exact absurd rfl hne
  | token => exact List.cons_ne_nil _ _
  | scope _ hinner _ ih _ =>
      rw [List.map_cons, TraceItem.tokens_cons_opened, List.map_append, TraceItem.tokens_append]
      exact List.append_ne_nil_of_left_ne_nil (ih hinner) _

theorem bracketed (h : Balanced es) : TraceItem.Bracketed (es.map Entry.item) := by
  induction h with
  | nil => exact .nil
  | token _ ih => exact .token rfl ih
  | scope hi hne _ ihi ihr =>
      rw [List.map_cons, List.map_append, List.map_cons]
      exact .scope ihi (hi.tokens_ne_nil hne) ihr

open TraceTree in
/-- **Building a tree from brackets** adds trees to the innermost open scope whose walk meets the
records. -/
theorem build (h : Balanced es) :
    ∃ ts, itemsAll ts = es.map Entry.item ∧ ∀ (host : Open) (outer : List Open) (rest : List Entry),
      TraceTree.build host outer (es ++ rest) =
        TraceTree.build ⟨host.node, ts.reverse ++ host.children⟩ outer rest := by
  induction h with
  | nil => exact ⟨[], rfl, fun _ _ _ => rfl⟩
  | @token node i t rest _ ih =>
      obtain ⟨ts, hitems, hbuild⟩ := ih
      refine ⟨.token node t.value t.origin :: ts, ?_, fun host outer more => ?_⟩
      · rw [itemsAll, hitems]
        rfl
      · rw [List.cons_append, TraceTree.build]
        change TraceTree.build (host.add _) outer _ = _
        rw [hbuild]
        simp [Open.add]
  | @scope node inner rest _ _ _ ihi ihr =>
      obtain ⟨us, husItems, husBuild⟩ := ihi
      obtain ⟨ts, htsItems, htsBuild⟩ := ihr
      refine ⟨.scope node us :: ts, ?_, fun host outer more => ?_⟩
      · rw [itemsAll, items, husItems, htsItems]
        simp
      · -- the scope is opened, its children are built, and it is closed into its host
        rw [List.cons_append, List.append_assoc, TraceTree.build]
        change TraceTree.build ⟨node, []⟩ (host :: outer) _ = _
        rw [husBuild, List.cons_append, TraceTree.build]
        change TraceTree.build (host.add _) outer _ = _
        rw [htsBuild]
        simp [Open.add, Open.done]

end Balanced

/-- Records of which exactly the given scopes, the innermost first, are not closed. -/
inductive Unclosed : List Scope → List Entry → Prop where
  | closed {es} (h : Balanced es) : Unclosed [] es
  | scope {s outer es inner} (h : Unclosed outer es) (hi : Balanced inner) :
      Unclosed (s :: outer) (es ++ .opened s.node :: inner)

namespace Unclosed

variable {scopes outer : List Scope} {es more : List Entry} {s : Scope} {tr : Trace}

theorem append (h : Unclosed scopes es) (hm : Balanced more) : Unclosed scopes (es ++ more) := by
  cases h with
  | closed h => exact .closed (h.append hm)
  | scope h hi =>
      rw [List.append_assoc, List.cons_append]
      exact .scope h (hi.append hm)

/-- Leaving a scope closes it, or erases that it was opened if nothing was recorded since. -/
theorem close (h : Unclosed (s :: outer) tr.reverse) : Unclosed outer (tr.closing [s]).reverse := by
  generalize hes : tr.reverse = es at h
  cases h with
  | @scope _ _ es inner h hi =>
      have htr : tr = inner.reverse ++ .opened s.node :: es.reverse := by
        rw [← List.reverse_reverse tr, hes]
        simp
      cases hlast : inner.reverse with
      | nil =>
          rw [htr, hlast]
          simpa [Trace.closing] using h
      | cons last front =>
          have hne : inner ≠ [] := by
            rintro rfl
            cases hlast
          have hclosed : tr.closing [s] = .closed s.node :: tr := by
            rw [htr, hlast]
            cases last with
            | opened node =>
                refine absurd ?_ (hi.getLast?_ne_opened node)
                rw [List.getLast?_eq_head?_reverse, hlast]
                rfl
            | token | closed => rfl
          have hbalanced : Balanced (.opened s.node :: (inner ++ .closed s.node :: [])) :=
            .scope hi hne .nil
          rw [hclosed, List.reverse_cons, hes, List.append_assoc]
          exact h.append hbalanced

theorem closing (inner : List Scope) (h : Unclosed (inner ++ outer) tr.reverse) :
    Unclosed outer (tr.closing inner).reverse := by
  induction inner generalizing tr with
  | nil => exact h
  | cons s inner ih => exact ih h.close

theorem taking (h : Unclosed scopes tr.reverse) (node : Grammar) (i : Nat) (us : List Token) :
    Unclosed scopes (tr.taking node i us).reverse := by
  induction us generalizing i tr with
  | nil => exact h
  | cons u us ih =>
      refine ih ?_ (i + 1)
      rw [List.reverse_cons]
      exact h.append (.token .nil)

end Unclosed

/-! ## Paths -/

namespace Else

/-- The scopes that the trace of a path leaves open are those of the path. -/
def Unclosed (e : Else) : Prop := ValueGrammar.Unclosed e.scopes e.trace.reverse

theorem Unclosed.leave {e : Else} (h : e.Unclosed) (scopes : List Scope) :
    (e.leave scopes).Unclosed := by
  refine ValueGrammar.Unclosed.closing (e.scopes.take (e.scopes.length - scopes.length)) ?_
  change ValueGrammar.Unclosed (_ ++ e.scopes.drop _) _
  rw [List.take_append_drop]
  exact h

end Else

namespace Machine

variable {ε : Type} {m : Machine ε} {c c' : Config}

theorem Expands.unclosed {e : Else} {new : List Else} {notes notes' : Notes}
    (hx : m.Expands e notes new notes') (h : e.Unclosed) : ∀ p ∈ new, p.Unclosed := by
  cases hx with
  | reject => intro p hp; cases hp
  | unfinished | empty | last | full | skip | again | once | ended | enum =>
      intro p hp
      rw [List.mem_singleton.mp hp]
      exact h
  | @nonEmpty t | @resume t =>
      intro p hp
      rw [List.mem_singleton.mp hp]
      exact h.leave t.scopes
  | branch =>
      intro p hp
      rcases List.mem_cons.mp hp with rfl | hp
      · split <;> exact h
      · split at hp
        · cases hp
        · rw [List.mem_singleton.mp hp]
          exact h
  | pick =>
      intro p hp
      rcases List.mem_cons.mp hp with rfl | hp
      · exact h
      · rw [List.mem_singleton.mp hp]
        exact h
  | leaf =>
      intro p hp
      rw [List.mem_singleton.mp hp]
      exact ValueGrammar.Unclosed.taking h _ _ _
  | @call r range node =>
      intro p hp
      rw [List.mem_singleton.mp hp]
      change ValueGrammar.Unclosed (_ :: e.scopes) (Entry.opened node :: e.trace).reverse
      rw [List.reverse_cons]
      exact .scope h .nil

/-- **The scopes that a trace leaves open are those of its path**, on every path of a run. -/
theorem Leads.unclosed {root : State} (h : m.Leads (.start root) c) : ∀ p ∈ c.paths, p.Unclosed := by
  refine h.forall_paths (fun _ he => he) (fun _ _ _ _ hx he => hx.unclosed he) fun p hp => ?_
  rw [mem_paths_start hp]
  exact .closed .nil

/-! ## References looked up -/

/-- The references looked up so far stand for something. -/
def Resolves (m : Machine ε) (refs : List Reference) : Prop :=
  ∀ r ∈ refs, ∃ root, m.resolve r = .ok (some root)

theorem Resolves.look {refs : List Reference} {r : Reference} {root : State} (h : m.Resolves refs)
    (hr : m.resolve r = .ok (some root)) : m.Resolves (r :: refs) := by
  intro r' hr'
  rcases List.mem_cons.mp hr' with rfl | hr'
  · exact ⟨root, hr⟩
  · exact h r' hr'

theorem Expands.resolves {e : Else} {new : List Else} {notes notes' : Notes}
    (hx : m.Expands e notes new notes') (h : m.Resolves notes.lookups) :
    m.Resolves notes'.lookups := by
  cases hx with
  | @leaf l node n ok =>
      have hsame : (notes.reach e.index n).lookups = notes.lookups := by
        unfold Notes.reach
        split <;> rfl
      rw [hsame]
      exact h
  | call _ hr => exact h.look hr
  | _ => exact h

theorem Moves.resolves (hm : m.Moves c c') (h : m.Resolves c.lookups) : m.Resolves c'.lookups := by
  cases hm with
  | expand hx => exact hx.resolves h
  | take hx => exact hx.resolves h
  | @defer r _ _ _ _ _ _ _ _ _ _ hr hn =>
      have hlookups : c'.lookups = r :: c.lookups := congrArg Notes.lookups hn
      rw [hlookups]
      exact h.look hr
  | retry _ _ _ _ _ _ _ hn =>
      have hlookups : c'.lookups = c.lookups := congrArg Notes.lookups hn
      rw [hlookups]
      exact h

/-- Every reference that a run looks up can be looked up, or the run fails with the error of the
look-up. The induction is on the steps left. -/
theorem runFrom_lookups (fuel steps : Nat) (h : m.Resolves c.lookups) {r : Reference}
    (hr : r ∈ (m.runFrom fuel steps c).final.lookups) :
    (∃ found, m.resolve r = .ok found) ∨
      ∃ e, m.resolve r = .error e ∧ (m.runFrom fuel steps c).outcome = .failed (.lookup e) := by
  have hbefore : r ∈ c.lookups → ∃ found, m.resolve r = .ok found := by
    intro hr
    obtain ⟨root, hroot⟩ := h r hr
    exact ⟨_, hroot⟩
  induction fuel generalizing steps c with
  | zero => exact .inl (hbefore hr)
  | succ fuel ih =>
      rw [runFrom] at hr ⊢
      cases hs : m.step c with
      | next c₁ =>
          rw [hs] at hr
          have h₁ := (step_next hs).resolves h
          refine ih (steps + 1) h₁ hr fun hr => ?_
          obtain ⟨root, hroot⟩ := h₁ r hr
          exact ⟨_, hroot⟩
      | finished matched c₁ =>
          rw [hs] at hr
          cases matched with
          | true =>
              obtain ⟨rfl, -⟩ := step_matched hs
              change r ∈ (c₁.closeTo []).lookups at hr
              rw [Config.closeTo_eq] at hr
              exact .inl (hbefore hr)
          | false =>
              obtain ⟨rfl, -⟩ := step_mismatched hs
              exact .inl (hbefore hr)
      | failed error c₁ =>
          rw [hs] at hr
          have hfails := step_failed hs
          generalize hnotes : c₁.notes = notes at hfails
          have hlookups : c₁.lookups = notes.lookups := congrArg Notes.lookups hnotes
          rw [hlookups] at hr
          -- only the last look-up can have failed
          cases hfails with
          | stuck => exact .inl (hbefore hr)
          | unresolved _ hnone =>
              rcases List.mem_cons.mp hr with rfl | hr
              · exact .inl ⟨_, hnone⟩
              · exact .inl (hbefore hr)
          | lookup _ herror =>
              rcases List.mem_cons.mp hr with rfl | hr
              · exact .inr ⟨_, herror, rfl⟩
              · exact .inl (hbefore hr)

end Machine

/-! ## The dictionary after a match -/

/-- An entry that can be looked up without a fault gives the same answer again. -/
theorem Definition.resolve_touch {d : Definition} {settings : Settings}
    (h : ∀ e, d.resolve settings = .error e → e.fault? = none) :
    (d.touch settings).resolve settings = d.resolve settings := by
  unfold touch
  split
  · rename_i hpending
    unfold resolve at h ⊢
    rw [hpending] at h ⊢
    simp only at h ⊢
    cases hg : Graph.ofGrammar settings d.source d.grammar with
    | ok graph => rfl
    | error e =>
        have hfault : e.fault? = none := h e (by rw [hg]; rfl)
        simp only [hfault, Option.isSome_none, Bool.false_eq_true, if_false]
        rfl
  · rfl

namespace Dictionary

variable {d : Dictionary} {settings : Settings}

theorem resolve_touch {r : Reference} (h : ∀ e, d.resolve settings r = .error e → e.fault? = none) :
    (d.touch settings r).resolve settings = d.resolve settings := by
  funext r'
  unfold touch
  cases hfind : d.find? r with
  | none => rfl
  | some entry =>
      simp only [resolve, find?_put]
      by_cases hr : r' = r
      · subst hr
        have hentry : ∀ e, entry.resolve settings = .error e → e.fault? = none := by
          intro e he
          refine h e ?_
          rw [resolve, hfind]
          exact he
        rw [if_pos rfl, hfind]
        exact Definition.resolve_touch hentry
      · rw [if_neg hr]

/-- Looking references up without a fault does not change what references stand for. -/
theorem resolve_touchAll {refs : List Reference}
    (h : ∀ r ∈ refs, ∀ e, d.resolve settings r = .error e → e.fault? = none) :
    (refs.foldl (touch settings) d).resolve settings = d.resolve settings := by
  induction refs generalizing d with
  | nil => rfl
  | cons r refs ih =>
      have hsame := resolve_touch (h r List.mem_cons_self)
      rw [List.foldl_cons, ih, hsame]
      intro r' hr' e he
      rw [hsame] at he
      exact h r' (List.mem_cons_of_mem r hr') e he

end Dictionary

/-! ## Matches -/

namespace Matcher

variable {m : Matcher} {settings : Settings} {d : Dictionary} {tokens : List Token} {g : Graph}

/-- A match does not change what the references it looked up stand for, unless it ends in a fault. -/
theorem resolve_runWith
    (h : ∀ e, (m.runWith settings d tokens g).1 = .error e → e.fault? = none) :
    (m.runWith settings d tokens g).2.resolve settings = d.resolve settings := by
  refine Dictionary.resolve_touchAll fun r hr e he => h e ?_
  have hroots : d.roots settings r = .error e := by rw [Dictionary.roots, he]; rfl
  have hlookups : r ∈ (m.search settings d tokens g).final.lookups := List.mem_reverse.mp hr
  rcases Machine.runFrom_lookups _ _ (fun _ h => by cases h) hlookups with ⟨_, hok⟩ | ⟨e', he', ho⟩
  · rw [show d.roots settings r = _ from hok] at hroots
    cases hroots
  · rw [show d.roots settings r = _ from he'] at hroots
    cases hroots
    change ((m.result tokens g.grammar (m.search settings d tokens g)).mapError Error.ofMachine) = _
    unfold result
    rw [show (m.search settings d tokens g).outcome = _ from ho]
    rfl

theorem runWith_congr {d' : Dictionary} (h : d'.resolve settings = d.resolve settings) :
    (m.runWith settings d' tokens g).1 = (m.runWith settings d tokens g).1 := by
  unfold runWith
  simp only [h]

theorem run_of_runWith {r : MatchResult} (h : (m.runWith settings d tokens g).1 = .ok r) :
    (m.run tokens g (d.roots settings)).1 = .ok r := by
  change (m.run tokens g (d.roots settings)).1.mapError Error.ofMachine = _ at h
  cases hrun : (m.run tokens g (d.roots settings)).1 with
  | error e => rw [hrun] at h; cases h
  | ok r' => rw [hrun] at h; cases h; rfl

/-- **The list and the tree of a match are two views of one trace.** A second match with the
dictionary that the first one leaves gives the same error or the same result, unless the first one
ends in a fault. If the tokens match, the list is well bracketed with a token in every scope, the walk
over the tree below its root meets the items of the list, and both have the same tokens. -/
theorem list_tree_of_run (m : Matcher) (settings : Settings) (d : Dictionary) (tokens : List Token)
    (g : Graph) :
    ((∀ e, (m.runWith settings d tokens g).1 = .error e → e.fault? = none) →
      (m.runWith settings (m.runWith settings d tokens g).2 tokens g).1 =
        (m.runWith settings d tokens g).1) ∧
    ∀ r, (m.runWith settings d tokens g).1 = .ok r → r.reason = .matched →
      ∃ items children, r.list? = some items ∧ r.tree? = some (.scope g.grammar children) ∧
        TraceItem.Bracketed items ∧ TraceTree.itemsAll children = items ∧
          (TraceTree.scope g.grammar children).tokens = TraceItem.tokens items := by
  refine ⟨fun h => runWith_congr (resolve_runWith h), fun r h hr => ?_⟩
  obtain ⟨c, hl, -, htrace, hgrammar⟩ := run_matched (run_of_runWith h) hr
  have hhere : c.here.Unclosed := hl.unclosed c.here (List.mem_append_left _ List.mem_cons_self)
  have hbalanced : Balanced (c.here.leave []).trace.reverse := by
    have hleave := hhere.leave []
    unfold Else.Unclosed at hleave
    rw [Else.leave_scopes List.nil_suffix] at hleave
    cases hleave with
    | closed h => exact h
  obtain ⟨children, hitems, hbuild⟩ := hbalanced.build
  have htree : (c.here.leave []).trace.tree g.grammar = .scope g.grammar children := by
    have hall := hbuild ⟨g.grammar, []⟩ [] []
    rw [List.append_nil, List.append_nil] at hall
    rw [Trace.tree, hall, TraceTree.build, TraceTree.finish, TraceTree.Open.done,
      List.reverse_reverse]
  refine ⟨(c.here.leave []).trace.items, children, ?_, ?_, hbalanced.bracketed, hitems, ?_⟩
  · rw [MatchResult.list?, htrace]
    rfl
  · rw [MatchResult.tree?, htrace, hgrammar]
    exact congrArg some htree
  · rw [TraceTree.tokens, ← TraceTree.tokens_itemsAll, hitems]
    rfl

/-- The type `<f>` is `<g> x`, and `<g>` is `y?`. -/
def nestedDictionary : Dictionary :=
  (Dictionary.empty.put ⟨.type, "f"⟩
      ⟨.row [.type "g" none, .keyword "x"], "<g> x", .pending⟩).put ⟨.type, "g"⟩
    ⟨.row [.multiplier (.keyword "y") 0 (some 1) false], "y?", .pending⟩

/-- The graph of `<f>#`. -/
def nestedGraph : Graph := foldedGraph "<f>#" (.row [.multiplier (.type "f" none) 1 none true])

/-- The tokens `y x , x`. -/
def nestedTokens : List Token :=
  [⟨.ident, "y", none⟩, ⟨.ident, "x", none⟩, ⟨.comma, ",", none⟩, ⟨.ident, "x", none⟩]

/-- A scope in a scope, which is entered twice and takes a token only the first time. -/
theorem list_tree_of_run_nested :
    ∃ r, (runWith ⟨1000, true, Token.isSignificant⟩ .standard nestedDictionary nestedTokens
          nestedGraph).1 = .ok r ∧ r.reason = .matched ∧
      (runWith ⟨1000, true, Token.isSignificant⟩ .standard
        (runWith ⟨1000, true, Token.isSignificant⟩ .standard nestedDictionary nestedTokens
          nestedGraph).2 nestedTokens nestedGraph).1 = .ok r ∧
      ∃ items children, r.list? = some items ∧
        r.tree? = some (.scope nestedGraph.grammar children) ∧
        TraceItem.Bracketed items ∧ TraceTree.itemsAll children = items ∧
          (TraceTree.scope nestedGraph.grammar children).tokens = TraceItem.tokens items := by
  have hrun : ∃ r, (runWith ⟨1000, true, Token.isSignificant⟩ .standard nestedDictionary
      nestedTokens nestedGraph).1 = .ok r ∧ r.reason = .matched := ⟨_, rfl, rfl⟩
  obtain ⟨r, hr, hmatched⟩ := hrun
  have hviews := list_tree_of_run ⟨1000, true, Token.isSignificant⟩ .standard nestedDictionary
    nestedTokens nestedGraph
  refine ⟨r, hr, hmatched, (hviews.1 fun e he => ?_).trans hr, hviews.2 r hr hmatched⟩
  rw [hr] at he
  cases he

end Matcher

end ValueGrammar

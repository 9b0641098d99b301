import ValueGrammar.Grammar

/-!
# `ValueGrammar.Grammar.Walk` — visiting the nodes of a grammar

## Contents
- `Grammar.inspect`: the nodes in depth-first order, without what is below refused nodes.
- `Grammar.nodes`, `Grammar.nodeInduction`: all the nodes, and induction over them.
- `Grammar.walkUntil`: the nodes up to the first one that stops the walk.
- `Grammar.references`: the types and properties a grammar refers to.
-/

namespace ValueGrammar

namespace Grammar

mutual

/-- The nodes of a grammar in depth-first order; what is below a node is left out unless `enter`
holds of it. -/
def inspect (enter : Grammar → Bool) : Grammar → List Grammar
  | .group c terms b n =>
    let node := .group c terms b n
    node :: if enter node then inspectAll enter terms else []
  | .multiplier t min max separated =>
    let node := .multiplier t min max separated
    node :: if enter node then inspect enter t else []
  | node => [node]

/-- The nodes of several grammars. -/
def inspectAll (enter : Grammar → Bool) : List Grammar → List Grammar
  | [] => []
  | t :: ts => inspect enter t ++ inspectAll enter ts

end

/-- Every node of a grammar, in depth-first order. -/
def nodes (g : Grammar) : List Grammar := g.inspect fun _ => true

theorem inspectAll_eq_flatMap (enter : Grammar → Bool) (ts : List Grammar) :
    inspectAll enter ts = ts.flatMap (inspect enter) := by
  induction ts with
  | nil => rfl
  | cons t ts ih => rw [inspectAll, ih, List.flatMap_cons]

theorem nodes_group (c : Combinator) (terms : List Grammar) (b n : Bool) :
    (Grammar.group c terms b n).nodes = .group c terms b n :: terms.flatMap nodes := by
  rw [nodes, inspect, if_pos rfl, inspectAll_eq_flatMap]
  rfl

theorem nodes_multiplier (t : Grammar) (min : Int) (max : Option Int) (separated : Bool) :
    (Grammar.multiplier t min max separated).nodes =
      .multiplier t min max separated :: t.nodes := by
  rw [nodes, inspect, if_pos rfl]
  rfl

/-- Induction over a grammar, with one case for all the nodes without children. -/
@[elab_as_elim]
theorem nodeInduction {motive : Grammar → Prop}
    (group : ∀ c terms b n, (∀ t ∈ terms, motive t) → motive (.group c terms b n))
    (multiplier : ∀ t min max separated, motive t → motive (.multiplier t min max separated))
    (leaf : ∀ g, (∀ c terms b n, g ≠ .group c terms b n) →
      (∀ t min max separated, g ≠ .multiplier t min max separated) → motive g)
    (g : Grammar) : motive g := by
  refine @Grammar.rec motive (fun ts => ∀ t ∈ ts, motive t) group multiplier ?_ ?_ ?_ ?_ ?_ ?_ ?_
    ?_ (by simp) ?_ g
  case refine_9 =>
    intro t ts ht hts u hu
    rcases List.mem_cons.mp hu with rfl | hu
    · exact ht
    · exact hts u hu
  all_goals intros; exact leaf _ (by simp) (by simp)

/-- The nodes visited by a walk that ends at the first node `stop` holds of, and whether there was
one. -/
def walkUntil (stop : Grammar → Bool) (g : Grammar) : List Grammar × Bool :=
  let before := g.nodes.takeWhile (!stop ·)
  match g.nodes.drop before.length with
  | node :: _ => (before ++ [node], true)
  | [] => (before, false)

end Grammar

/-- The two name spaces of a dictionary. -/
inductive ReferenceKind where
  | type
  | property
  deriving Repr, DecidableEq, Inhabited

namespace ReferenceKind

/-- The word for the name space. -/
def text : ReferenceKind → String
  | .type => "type"
  | .property => "property"

end ReferenceKind

/-- A name of a dictionary, as a grammar refers to it. -/
structure Reference where
  kind : ReferenceKind
  name : String
  deriving Repr, DecidableEq, Inhabited

namespace Reference

/-- The reference as it is written in a grammar. -/
def text (r : Reference) : String :=
  match r.kind with
  | .property => "<'" ++ r.name ++ "'>"
  | .type => "<" ++ r.name ++ ">"

end Reference

namespace Grammar

/-- The reference a single node makes. -/
def reference? : Grammar → Option Reference
  | .type name _ => some ⟨.type, name⟩
  | .property name => some ⟨.property, name⟩
  | _ => none

/-- The references of a grammar, in depth-first order and with repetitions. -/
def references (g : Grammar) : List Reference := g.nodes.filterMap reference?

end Grammar

end ValueGrammar

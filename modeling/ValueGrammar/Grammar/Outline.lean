import ValueGrammar.Grammar
import ValueGrammar.Outline
import ValueGrammar.Text.Quoted

/-!
# `ValueGrammar.Grammar.Outline` — a grammar drawn as a tree
-/

namespace ValueGrammar

namespace Grammar

/-- The label of a node without children: its name and its operand. -/
def leafLabel (name colour operand : String) : String :=
  name ++ "[" ++ paint colour operand ++ "]"

mutual

/-- The tree of a grammar, coloured by a theme. -/
def outline (theme : Theme) : Grammar → Outline
  | .group c terms _ nonEmpty =>
    let name := if nonEmpty then "Group!" else "Group"
    .node (name ++ paint theme.combinator ("[" ++ c.text ++ "]")) (outlines theme terms)
  | .multiplier t min max separated =>
    .node ("Multiplier" ++
        paint theme.multiplier ("[" ++ multiplierText min max separated ++ "]"))
      [outline theme t]
  | .keyword name => .node (leafLabel "Keyword" theme.keyword name) []
  | .atKeyword name => .node (leafLabel "AtKeyword" theme.keyword name) []
  | .function name => .node (leafLabel "Function" theme.keyword name) []
  | .type name range =>
    let operand := match range with
      | some r => name ++ " " ++ r.text
      | none => name
    .node (leafLabel "Type" theme.reference operand) []
  | .property name => .node (leafLabel "Property" theme.reference name) []
  | .token value => .node (leafLabel "Token" theme.keyword (Text.escapeLiteral value)) []
  | .string value => .node (leafLabel "String" theme.keyword (Text.escapeLiteral value)) []
  | .comma => .node "Comma" []

/-- The trees of several grammars. -/
def outlines (theme : Theme) : List Grammar → List Outline
  | [] => []
  | t :: ts => outline theme t :: outlines theme ts

end

/-- A grammar drawn as a tree. -/
def pretty (theme : Theme) (g : Grammar) : String := (g.outline theme).draw

end Grammar

end ValueGrammar

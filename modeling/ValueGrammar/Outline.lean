/-!
# `ValueGrammar.Outline` — drawing trees, in colour if wanted

## Contents
- `Theme`, `Theme.standard`, `Theme.plain`, `paint`: colours for terminals.
- `Outline`, `Outline.draw`: trees of labels drawn with branches, one label a line.
-/

namespace ValueGrammar

/-- The colours of what is printed, as control sequences; an empty one leaves the text as it is. -/
structure Theme where
  matched : String := ""
  mismatched : String := ""
  warning : String := ""
  muted : String := ""
  accent : String := ""
  combinator : String := ""
  reference : String := ""
  keyword : String := ""
  token : String := ""
  multiplier : String := ""
  deriving Repr, DecidableEq, Inhabited

namespace Theme

/-- Ends a colour. -/
def reset : String := "\x1b[0m"

/-- The colour of errors. -/
def red : String := "\x1b[1;31m"

/-- Colours that can be read on dark and on light terminals. -/
def standard : Theme where
  matched := "\x1b[1;32m"
  mismatched := red
  warning := "\x1b[1;33m"
  muted := "\x1b[90m"
  accent := "\x1b[1;36m"
  combinator := "\x1b[1;38;5;99m"
  reference := "\x1b[1;38;5;127m"
  keyword := "\x1b[1;38;5;245m"
  token := "\x1b[1;32m"
  multiplier := "\x1b[38;5;208m"

/-- No colours at all. -/
def plain : Theme := {}

end Theme

/-- A text in a colour. -/
def paint (colour text : String) : String :=
  if colour.isEmpty then text else colour ++ text ++ Theme.reset

/-- A tree of labels. -/
inductive Outline where
  | node (label : String) (children : List Outline)
  deriving Repr, Inhabited

namespace Outline

mutual

/-- The label of a tree, and its branches on the lines below, each starting with `padding`. -/
def drawWithin (padding : String) : Outline → String
  | .node label children => label ++ drawChildren padding children

/-- The branches of a node. -/
def drawChildren (padding : String) : List Outline → String
  | [] => ""
  | [last] => "\n" ++ padding ++ "└── " ++ drawWithin (padding ++ "    ") last
  | child :: rest =>
    "\n" ++ padding ++ "├── " ++ drawWithin (padding ++ "│   ") child ++ drawChildren padding rest

end

/-- The tree as text. -/
def draw (o : Outline) : String := o.drawWithin ""

end Outline

end ValueGrammar

import ValueGrammar.Proofs.Case.Letters
import ValueGrammar.Proofs.Meaning
import ValueGrammar.Proofs.Reader
import ValueGrammar.Proofs.States

/-!
# `ValueGrammar.Proofs.Case.Leaves` — comparisons that letter case does not matter to

A leaf takes as many tokens in lower case as it takes of the tokens as they are, except for one that
compares a token character by character with a text that has letters in it. The signs of the notation
are no letters, so the only such leaf of a grammar that was read is a string literal of one letter.

## Contents
- `Leaf.CaseBlind`: leaves that letter case does not matter to; `Leaf.caseBlind_token` and others.
- `Grammar.NoLetters`: the grammars without a string literal of one letter.
- `State.CaseBlind`, `Compiler.caseBlind_compile`: their states.
- `Dictionary.Means.caseBlind`: what the references of a dictionary lead to.
-/

namespace ValueGrammar

/-! ## Leaves -/

theorem isListStart_lowered (last : Option Token) :
    isListStart (last.map Token.lowered) = isListStart last := by
  cases last with
  | none => rfl
  | some t =>
      have hmark : (Text.lowerAscii t.value != "?") = (t.value != "?") := by
        rw [bne, bne, Text.lowerAscii_beq (by simp)]
      simp only [Option.map_some, isListStart, Token.kind_lowered, Token.value_lowered, hmark]

theorem isListEnd_lowered (next : Option Token) :
    isListEnd (next.map Token.lowered) = isListEnd next := by
  cases next with
  | none => rfl
  | some t =>
      have hslash : (Text.lowerAscii t.value == "/") = (t.value == "/") :=
        Text.lowerAscii_beq (by simp) t.value
      simp only [Option.map_some, isListEnd, Token.kind_lowered, Token.value_lowered, hslash]

theorem spellingLength_lowered (size : Nat) (ts : List Token) :
    spellingLength size (ts.map Token.lowered) = spellingLength size ts := by
  induction ts generalizing size with
  | nil => rfl
  | cons t ts ih =>
      rw [List.map_cons, spellingLength, spellingLength, Token.value_lowered,
        Text.utf8ByteSize_lowerAscii, ih]

namespace Leaf

/-- The leaf takes as many tokens in lower case as it takes of the tokens as they are. -/
def CaseBlind (l : Leaf) : Prop :=
  ∀ last range ahead,
    l.take (last.map Token.lowered) range (ahead.map Token.lowered) = l.take last range ahead

theorem takeOne_lowered {p : Token → Bool} (hp : ∀ t, p t.lowered = p t) (ahead : List Token) :
    takeOne p (ahead.map Token.lowered) = takeOne p ahead := by
  cases ahead with
  | nil => rfl
  | cons t ts => rw [List.map_cons, takeOne, takeOne, hp]

theorem caseBlind_keyword (name : String) : (Leaf.keyword name).CaseBlind := by
  refine fun _ _ ahead => takeOne_lowered (fun t => ?_) ahead
  rw [Token.value_lowered, stripHack_lowerAscii, Text.equalFold_lowerAscii]

theorem caseBlind_atKeyword (name : String) : (Leaf.atKeyword name).CaseBlind := by
  refine fun _ _ ahead => takeOne_lowered (fun t => ?_) ahead
  rw [Token.value_lowered, Text.equalFold_lowerAscii]

theorem caseBlind_function (name : String) : (Leaf.function name).CaseBlind := by
  refine fun _ _ ahead => takeOne_lowered (fun t => ?_) ahead
  rw [Token.value_lowered, Text.equalFold_lowerAscii]

/-- A token that is compared character by character has no letters. -/
theorem caseBlind_token {value : String} (h : ∀ c ∈ value.toList, c.isAlpha = false) :
    (Leaf.token value).CaseBlind := by
  refine fun _ _ ahead => takeOne_lowered (fun t => ?_) ahead
  rw [Token.value_lowered, Text.lowerAscii_beq h]

theorem caseBlind_comma : Leaf.comma.CaseBlind := by
  intro last _ ahead
  cases ahead with
  | nil => rfl
  | cons t rest =>
      have hlast := isListStart_lowered last
      have hhere := isListEnd_lowered (some t)
      have hnext := isListEnd_lowered rest.head?
      rw [Option.map_some] at hhere
      rw [← List.head?_map] at hnext
      simp only [List.map_cons, take, takeComma, hlast, hhere, hnext, Token.kind_lowered]

theorem caseBlind_string (value : String) (size : Nat) : (Leaf.string value size).CaseBlind := by
  intro _ _ ahead
  simp only [take, spellingLength_lowered, ← List.map_take, Token.joined_lowered,
    Text.equalFold_lowerAscii]

theorem caseBlind_generic (name : String) (r : Recognizer) : (Leaf.generic name r).CaseBlind := by
  intro _ range ahead
  simp only [take_generic, Recognizer.consume_lowered]

end Leaf

/-! ## States -/

/-- No leaf of the state minds letter case. -/
inductive State.CaseBlind : State → Prop where
  | accept : CaseBlind .accept
  | reject : CaseBlind .reject
  | nonEmpty : CaseBlind .nonEmpty
  | cond {test next other} (ht : CaseBlind test) (hn : CaseBlind next) (ho : CaseBlind other) :
      CaseBlind (.cond test next other)
  | loop {body sep} (h : CaseBlind body) : CaseBlind (.loop body sep)
  | again {body sep} (h : CaseBlind body) : CaseBlind (.again body sep)
  | enum {table} (h : ∀ entry ∈ table, CaseBlind entry.2) : CaseBlind (.enum table)
  | once {terms all node} (h : ∀ s ∈ terms, CaseBlind s) : CaseBlind (.once terms all node)
  | leaf {l node} (h : l.CaseBlind) : CaseBlind (.leaf l node)
  | call {r range node} : CaseBlind (.call r range node)

namespace State

variable {s test next other : State}

theorem CaseBlind.parts (h : s.CaseBlind) (hb : s.branch? = some (test, next, other)) :
    test.CaseBlind ∧ next.CaseBlind ∧ other.CaseBlind := by
  cases h with
  | cond ht hn ho =>
      cases hb
      exact ⟨ht, hn, ho⟩
  | loop h =>
      cases hb
      exact ⟨h, .again h, .reject⟩
  -- a further round may need a comma first
  | @again body sep h =>
      cases sep with
      | none =>
          cases hb
          exact ⟨.accept, .accept, .loop h⟩
      | some node =>
          cases hb
          exact ⟨.accept, .accept, .cond (.leaf Leaf.caseBlind_comma) (.loop h) .reject⟩
  | _ => cases hb

theorem CaseBlind.branch (ht : test.CaseBlind) (hn : next.CaseBlind) (ho : other.CaseBlind) :
    (State.branch test next other).CaseBlind := by
  unfold State.branch
  split
  · exact ht
  · split
    · exact ht
    · split
      · split
        · rename_i hb
          split
          · exact .cond (ht.parts hb).1 (ht.parts hb).2.1 ho
          · exact .cond ht hn ho
        · exact .cond ht hn ho
      · exact .cond ht hn ho

theorem built_caseBlind : State.Built State.CaseBlind where
  accept := .accept
  reject := .reject
  branch := .branch
  checked h := .cond h .nonEmpty .reject
  loop h := .loop (.cond h .nonEmpty .reject)
  comma := .leaf Leaf.caseBlind_comma
  enum := .enum
  once _ := .once

theorem kept_caseBlind : State.Kept State.CaseBlind where
  accept := .accept
  reject := .reject
  parts h hb := (h.parts hb).imp_right (And.imp_left .inr)
  enum h := by
    cases h with
    | enum htable => exact htable
  once h := by
    cases h with
    | once hterms => exact hterms

end State

/-! ## Grammars -/

namespace Grammar

/-- Is it a string literal of exactly one letter between its quotes? -/
def isLetter : Grammar → Bool
  | .string value =>
    match value.toList with
    | [_, c, _] => c.isAlpha
    | _ => false
  | _ => false

/-- No string literal of the grammar is exactly one letter between its quotes. -/
def NoLetters (g : Grammar) : Prop := ∀ n ∈ g.nodes, n.isLetter = false

instance (g : Grammar) : Decidable g.NoLetters :=
  List.decidableBAll (fun n : Grammar => n.isLetter = false) g.nodes

theorem IsSign.not_isAlpha {c : Char} (h : IsSign c) : c.isAlpha = false := by
  obtain ⟨-, hname, -⟩ := h
  simp only [Read.isNameStart, Bool.or_eq_false_iff] at hname
  obtain ⟨⟨-, hletter⟩, -⟩ := hname
  by_cases hc : c.toNat < 0x80
  · rwa [Text.isLetter, if_pos hc] at hletter
  · rw [Bool.eq_false_iff, ne_eq, Text.isAlpha_iff]
    omega

theorem Proper.of_mem_nodes {g n : Grammar} (h : g.Proper) (hn : n ∈ g.nodes) : n.Proper := by
  induction h with
  | @group c terms b e hne himplicit hts ih =>
      rw [nodes_group, List.mem_cons, List.mem_flatMap] at hn
      rcases hn with rfl | ⟨t, ht, hn⟩
      · exact .group hne himplicit hts
      · exact ih t ht hn
  | @multiplier t min max separated hmin hmax ht ih =>
      rw [nodes_multiplier, List.mem_cons] at hn
      rcases hn with rfl | hn
      · exact .multiplier hmin hmax ht
      · exact ih hn
  | keyword h => rw [List.mem_singleton.mp hn]; exact .keyword h
  | atKeyword h => rw [List.mem_singleton.mp hn]; exact .atKeyword h
  | function h => rw [List.mem_singleton.mp hn]; exact .function h
  | type h hp hr => rw [List.mem_singleton.mp hn]; exact .type h hp hr
  | property h => rw [List.mem_singleton.mp hn]; exact .property h
  | token h => rw [List.mem_singleton.mp hn]; exact .token h
  | string hq => rw [List.mem_singleton.mp hn]; exact .string hq
  | comma => rw [List.mem_singleton.mp hn]; exact .comma

/-- A node without children of a definition is proper, since the root is a group. -/
theorem ProperRoot.of_mem_nodes {g n : Grammar} (h : g.ProperRoot) (hn : n ∈ g.nodes)
    (ht : n.IsTerm) : n.Proper := by
  obtain ⟨c, terms, b, e, rfl, -, hterms⟩ := h
  rw [nodes_group, List.mem_cons, List.mem_flatMap] at hn
  rcases hn with rfl | ⟨t, htm, hn⟩
  · exact ht.elim
  · exact (hterms t htm).of_mem_nodes hn

end Grammar

/-- A string literal that is not one letter is compared without its case. -/
theorem Compiler.caseBlind_stringLeaf {value : String}
    (h : (Grammar.string value).isLetter = false) : (stringLeaf value).CaseBlind := by
  unfold stringLeaf
  split
  · rename_i q c q' hvalue
    refine Leaf.caseBlind_token fun d hd => ?_
    simp only [Grammar.isLetter, hvalue] at h
    obtain rfl : d = c := by simpa using hd
    exact h
  · exact Leaf.caseBlind_string _ _

/-- **A grammar that was read compares without letter case**, if it has no string literal of one
letter. -/
theorem Compiler.caseBlind_compile {fold : Bool} {source : String} {g : Grammar} {s : State}
    (hg : Grammar.parse source = .ok g) (hn : g.NoLetters)
    (hs : (Compiler.standard fold).compile g = .ok s) : s.CaseBlind := by
  refine State.built_caseBlind.compile g (fun n hnode hterm s hs => ?_) hs
  have hproper := (Grammar.isDefinition_of_parse hg).properRoot.of_mem_nodes hnode hterm
  have hletter := hn n hnode
  cases n with
  | group | multiplier => exact hterm.elim
  | type | property => cases hs; exact .call
  | keyword name => cases hs; exact .leaf (Leaf.caseBlind_keyword _)
  | atKeyword name => cases hs; exact .leaf (Leaf.caseBlind_atKeyword _)
  | function name => cases hs; exact .leaf (Leaf.caseBlind_function _)
  | comma => cases hs; exact .leaf Leaf.caseBlind_comma
  | string value => cases hs; exact .leaf (caseBlind_stringLeaf hletter)
  | token value =>
      cases hs
      cases hproper with
      | @token c hsign =>
          refine .leaf (Leaf.caseBlind_token fun d hd => ?_)
          obtain rfl : d = c := by simpa using hd
          exact hsign.not_isAlpha

/-! ## Dictionaries -/

namespace Dictionary

variable {d : Dictionary} {env : Reference → Option Meaning} {p : Settings → Prop}

/-- Every grammar of a dictionary was read from a text. -/
theorem Means.exists_parse (h : d.Means p env) {r : Reference} {g : Grammar}
    (he : env r = some (.grammar g)) : ∃ source, Grammar.parse source = .ok g := by
  induction h with
  | empty => cases he
  | @add d d' env r' source g' _ hg _ ih =>
      by_cases hr : r = r'
      · subst hr
        rw [Function.update_self] at he
        cases he
        exact ⟨source, hg⟩
      · rw [Function.update_of_ne hr] at he
        exact ih he
  | @addGeneric d env name count _ ih =>
      by_cases hr : r = ⟨.type, name⟩
      · subst hr
        rw [Function.update_self] at he
        cases he
      · rw [Function.update_of_ne hr] at he
        exact ih he
  | touch _ _ ih => exact ih he

/-- **What a reference leads to compares without letter case**, if no grammar of the dictionary has a
string literal of one letter and its generic types are those of CSS. -/
theorem Means.caseBlind (h : d.Means p env) {settings : Settings} (hp : p settings)
    (henv : ∀ r g, env r = some (.grammar g) → g.NoLetters)
    (hgeneric : ∀ r count, env r = some (.recognizer count) → ∃ t : Recognizer, count = t)
    {r : Reference} {root : State}
    (hr : d.roots settings r = .ok (some root)) : root.CaseBlind := by
  obtain ⟨graph, hgraph, rfl⟩ := roots_ok hr
  rcases h.resolve hp hgraph with ⟨g, fold, he, -, -, hc⟩ | ⟨name, count, -, he, rfl⟩
  · obtain ⟨source, hg⟩ := h.exists_parse he
    exact Compiler.caseBlind_compile hg (henv r g he) hc
  · obtain ⟨t, rfl⟩ := hgeneric _ count he
    exact .leaf (Leaf.caseBlind_generic name t)

end Dictionary

end ValueGrammar

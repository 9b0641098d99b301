import ValueGrammar.Grammar.Walk
import ValueGrammar.Proofs.Notation.Written

/-!
# `ValueGrammar.Proofs.Notation.Fused` — what the text of a grammar stands for

The text of a row does not show how its terms were nested, and need not: nesting them by precedence
again gives the same groups. The text of a multiplier is another matter. A lone `#` says "one or more,
between commas", and limits in braces may be applied to that; but a brace right after the sign belongs
to it. `fused` is the grammar with every such pair of multipliers read as one.

## Contents
- `Row.chars`, `Row.text_toGroup`: the text of the group a row stands for is the text of the row.
- `Grammar.glued`: limits in braces applied to a lone `#`.
- `Grammar.fused`, `Grammar.text_fused`: the grammar with glued multipliers made one has the same text.
- `Grammar.fused_eq_self_iff`: nothing changes exactly if no node is glued.
- `Row.fused_toGroup`: the order of nesting and fusing does not matter.
-/

namespace ValueGrammar

namespace Grammar

/-! ## Glued multipliers -/

/-- The limits are written within braces: no shorter sign says the same. -/
def braced (min : Int) (max : Option Int) : Bool :=
  !(max == none && (min == 0 || min == 1) || max == some 1 && min == 0)

/-- The term under a lone `#`. -/
def underHash? : Grammar → Option Grammar
  | .multiplier t 1 none true => some t
  | _ => none

theorem underHash?_eq_some_iff {g t : Grammar} :
    g.underHash? = some t ↔ g = .multiplier t 1 none true := by
  unfold underHash?
  split
  · simp
  · rename_i h
    simpa using h t

/-- Limits in braces applied to a lone `#`. -/
def glued : Grammar → Bool
  | .multiplier t min max false => t.underHash?.isSome && braced min max
  | _ => false

theorem isSome_underHash? {t : Grammar} {min : Int} {max : Option Int} {separated : Bool} :
    (Grammar.multiplier t min max separated).underHash?.isSome = true ↔
      separated = true ∧ min = 1 ∧ max = none := by
  rw [Option.isSome_iff_exists]
  constructor
  · rintro ⟨u, hu⟩
    cases underHash?_eq_some_iff.mp hu
    exact ⟨rfl, rfl, rfl⟩
  · rintro ⟨rfl, rfl, rfl⟩
    exact ⟨t, rfl⟩

/-- A multiplier with the given limits, which a lone `#` takes as its own. -/
def fuse (t : Grammar) (min : Int) (max : Option Int) (separated : Bool) : Grammar :=
  match t.underHash? with
  | some u =>
    if !separated && braced min max then .multiplier u min max true
    else .multiplier t min max separated
  | none => .multiplier t min max separated

mutual

/-- The grammar with every pair of glued multipliers made one. -/
def fused : Grammar → Grammar
  | .group c terms b n => .group c (fusedAll terms) b n
  | .multiplier t min max separated => fuse t.fused min max separated
  | g => g

/-- Several grammars with glued multipliers made one. -/
def fusedAll : List Grammar → List Grammar
  | [] => []
  | t :: ts => t.fused :: fusedAll ts

end

@[simp] theorem fusedAll_eq_map (ts : List Grammar) : fusedAll ts = ts.map fused := by
  induction ts with
  | nil => rfl
  | cons t ts ih => simp [fusedAll, ih]

theorem fused_group (c : Combinator) (terms : List Grammar) (b n : Bool) :
    (Grammar.group c terms b n).fused = .group c (terms.map fused) b n := by
  rw [fused, fusedAll_eq_map]

theorem fused_leaf {g : Grammar} (hg : ∀ c terms b n, g ≠ .group c terms b n)
    (hm : ∀ t min max separated, g ≠ .multiplier t min max separated) : g.fused = g := by
  rw [fused]
  · exact fun c terms b n => hg c terms b n
  · exact fun t min max separated => hm t min max separated

variable {t u : Grammar} {min : Int} {max : Option Int} {separated : Bool}

theorem glued_iff : (Grammar.multiplier t min max separated).glued = true ↔
    ∃ u, t = .multiplier u 1 none true ∧ separated = false ∧ braced min max = true := by
  cases separated with
  | true => simp [glued]
  | false => simp [glued, Option.isSome_iff_exists, underHash?_eq_some_iff]

theorem fuse_of_not_glued (h : (Grammar.multiplier t min max separated).glued = false) :
    fuse t min max separated = .multiplier t min max separated := by
  unfold fuse
  split
  · rename_i u hu
    cases separated with
    | true => rfl
    | false =>
        have hb : braced min max = false := by simpa [glued, hu] using h
        rw [hb]
        rfl
  · rfl

theorem fuse_hash (h : braced min max = true) :
    fuse (.multiplier u 1 none true) min max false = .multiplier u min max true := by
  simp [fuse, underHash?, h]

/-- A lone `#` keeps its sign. -/
theorem fused_hash (u : Grammar) :
    (Grammar.multiplier u 1 none true).fused = .multiplier u.fused 1 none true := by
  rw [fused, fuse_of_not_glued rfl]

/-- Only a lone `#` becomes one. -/
theorem eq_hash_of_fused {v : Grammar} (h : t.fused = .multiplier v 1 none true) :
    ∃ u, t = .multiplier u 1 none true := by
  cases t with
  | group c terms b n =>
      rw [fused_group] at h
      cases h
  | multiplier w min max separated =>
      rw [fused] at h
      cases hg : (Grammar.multiplier w.fused min max separated).glued with
      | true =>
          obtain ⟨x, hx, rfl, hb⟩ := glued_iff.mp hg
          rw [hx, fuse_hash hb] at h
          cases h
          cases hb
      | false =>
          rw [fuse_of_not_glued hg] at h
          cases h
          exact ⟨w, rfl⟩
  | _ =>
      rw [fused_leaf (by simp) (by simp)] at h
      cases h

theorem glued_fused :
    (Grammar.multiplier t.fused min max separated).glued =
      (Grammar.multiplier t min max separated).glued := by
  rw [Bool.eq_iff_iff, glued_iff, glued_iff]
  constructor
  · rintro ⟨u, hu, hs, hb⟩
    obtain ⟨w, hw⟩ := eq_hash_of_fused hu
    exact ⟨w, hw, hs, hb⟩
  · rintro ⟨u, rfl, hs, hb⟩
    exact ⟨u.fused, fused_hash u, hs, hb⟩

theorem fused_of_not_glued (h : (Grammar.multiplier t min max separated).glued = false) :
    (Grammar.multiplier t min max separated).fused = .multiplier t.fused min max separated := by
  rw [fused, fuse_of_not_glued (by rw [glued_fused, h])]

theorem fused_of_glued (h : braced min max = true) :
    (Grammar.multiplier (.multiplier u 1 none true) min max false).fused =
      .multiplier u.fused min max true := by
  rw [fused, fused_hash, fuse_hash h]

theorem eq_group_of_fused {c : Combinator} {terms : List Grammar} {b n : Bool}
    (h : t.fused = .group c terms b n) : ∃ terms', t = .group c terms' b n := by
  cases t with
  | group c' terms' b' n' =>
      rw [fused_group] at h
      cases h
      exact ⟨terms', rfl⟩
  | multiplier w min max separated =>
      cases hg : (Grammar.multiplier w min max separated).glued with
      | true =>
          obtain ⟨x, rfl, rfl, hb⟩ := glued_iff.mp hg
          rw [fused_of_glued hb] at h
          cases h
      | false =>
          rw [fused_of_not_glued hg] at h
          cases h
  | _ =>
      rw [fused_leaf (by simp) (by simp)] at h
      cases h

/-- Fusing changes nothing exactly if there is nothing to fuse. -/
theorem fused_eq_self_iff (g : Grammar) : g.fused = g ↔ ∀ node ∈ g.nodes, node.glued = false := by
  induction g using nodeInduction with
  | group c terms b n ih =>
      rw [fused_group, nodes_group, List.forall_mem_cons, List.forall_mem_flatMap]
      have hmap : terms.map fused = terms ↔ ∀ t ∈ terms, t.fused = t := by
        simpa using List.map_inj_left (f := fused) (g := id) (l := terms)
      simp only [Grammar.group.injEq, true_and, and_true, hmap, glued]
      exact forall₂_congr ih
  | multiplier t min max separated ih =>
      rw [nodes_multiplier, List.forall_mem_cons, ← ih]
      cases hg : (Grammar.multiplier t min max separated).glued with
      | true =>
          obtain ⟨u, rfl, rfl, hb⟩ := glued_iff.mp hg
          rw [fused_of_glued hb]
          simp
      | false =>
          rw [fused_of_not_glued hg]
          simp
  | leaf g hg hm =>
      have hnodes : g.nodes = [g] := by
        cases g with
        | group c terms b n => exact absurd rfl (hg c terms b n)
        | multiplier t min max separated => exact absurd rfl (hm t min max separated)
        | _ => rfl
      have hglued : g.glued = false := by
        cases g with
        | multiplier t min max separated => exact absurd rfl (hm t min max separated)
        | _ => rfl
      simp [hnodes, hglued, fused_leaf hg hm]

/-! ## The text -/

/-- The limits of a multiplier within braces. -/
def bracesText (min : Int) (max : Option Int) : String :=
  "\x7b" ++ (if min == max.getD (-1) then toString min
    else match max with
      | none => toString min ++ ","
      | some n => toString min ++ "," ++ toString n) ++ "\x7d"

/-- The four abbreviated signs are tried first. -/
theorem multiplierText_eq (min : Int) (max : Option Int) (separated : Bool) :
    multiplierText min max separated =
      if separated && min == 1 && max == none then "#"
      else if !separated && min == 0 && max == none then "*"
      else if !separated && min == 1 && max == none then "+"
      else if !separated && min == 0 && max == some 1 then "?"
      else (if separated then "#" else "") ++ bracesText min max := by
  have hbraces : ∀ mark : String,
      (if min == max.getD (-1) then mark ++ "\x7b" ++ toString min ++ "\x7d"
        else match max with
          | none => mark ++ "\x7b" ++ (toString min ++ ",") ++ "\x7d"
          | some n => mark ++ "\x7b" ++ (toString min ++ "," ++ toString n) ++ "\x7d") =
        mark ++ bracesText min max := by
    intro mark
    unfold bracesText
    split
    · simp only [String.append_assoc]
    · cases max <;> simp only [String.append_assoc]
  unfold multiplierText
  rewrite [← hbraces]
  rfl

theorem multiplierText_braced (h : braced min max = true) (separated : Bool) :
    multiplierText min max separated = (if separated then "#" else "") ++ bracesText min max := by
  have hstar : ¬(min = 0 ∧ max = none) := by rintro ⟨rfl, rfl⟩; cases h
  have hplus : ¬(min = 1 ∧ max = none) := by rintro ⟨rfl, rfl⟩; cases h
  have hopt : ¬(min = 0 ∧ max = some 1) := by rintro ⟨rfl, rfl⟩; cases h
  rw [multiplierText_eq, if_neg, if_neg, if_neg, if_neg]
  all_goals cases separated <;> simp_all

theorem multiplierText_hash (h : braced min max = true) :
    multiplierText min max true = "#" ++ multiplierText min max false := by
  rw [multiplierText_braced h, multiplierText_braced h]
  simp

theorem text_fused (g : Grammar) : g.fused.text = g.text := by
  induction g using nodeInduction with
  | group c terms b n ih =>
      have hmap : terms.map (text ∘ fused) = terms.map text := List.map_congr_left ih
      rw [fused_group, text, text, texts_eq_map, texts_eq_map, List.map_map, hmap]
  | multiplier t min max separated ih =>
      cases hg : (Grammar.multiplier t min max separated).glued with
      | true =>
          obtain ⟨u, rfl, rfl, hb⟩ := glued_iff.mp hg
          have hu : u.fused.text = u.text := by simpa [fused_hash, text] using ih
          rw [fused_of_glued hb, text, text, text, multiplierText_hash hb, hu, String.append_assoc]
          rfl
      | false => rw [fused_of_not_glued hg, text, text, ih]
  | leaf g hg hm => rw [fused_leaf hg hm]

end Grammar

/-! ## Rows -/

namespace Row

/-- The row with every term changed. -/
def map (f : Grammar → Grammar) (row : Row) : Row := ⟨f row.head, row.tail.map (Prod.map id f)⟩

/-- The characters of a row: its terms with the combinators between them. -/
def chars (row : Row) : List Char :=
  row.head.text.toList ++ row.tail.flatMap fun ct => ct.1.separator.toList ++ ct.2.text.toList

variable {row : Row}

theorem cut_map (f : Grammar → Grammar) (c : Combinator) (head : Grammar)
    (tail : List (Combinator × Grammar)) :
    cut c (f head) (tail.map (Prod.map id f)) =
      ((cut c head tail).1.map f, (cut c head tail).2.map (map f)) := by
  induction tail generalizing head with
  | nil => rfl
  | cons dt rest ih =>
      obtain ⟨d, t⟩ := dt
      rw [List.map_cons, Prod.map_apply, cut, cut, ih t]
      dsimp only [id]
      split <;> rfl

/-- A part of a row that was cut: a term, or the group of its terms. -/
def nested (tighter : List Combinator) (part : Row) : Grammar :=
  if part.tail.isEmpty then part.head
  else .group (regroup tighter part).2 (regroup tighter part).1 false false

theorem regroup_cons (c : Combinator) (tighter : List Combinator) (row : Row) :
    regroup (c :: tighter) row =
      match cut c row.head row.tail with
      | (_, []) => regroup tighter row
      | (part, parts) => ((part :: parts).map (nested tighter), c) := rfl

/-- Nesting a row by precedence does not look at its terms. -/
theorem regroup_map {f : Grammar → Grammar}
    (hf : ∀ c terms, f (.group c terms false false) = .group c (terms.map f) false false)
    (cs : List Combinator) (row : Row) :
    regroup cs (row.map f) = ((regroup cs row).1.map f, (regroup cs row).2) := by
  induction cs generalizing row with
  | nil => simp [regroup, terms, map]
  | cons c tighter ih =>
      have hnested : ∀ part : Row, nested tighter (part.map f) = f (nested tighter part) := by
        intro part
        unfold nested
        rw [ih part, apply_ite f, hf]
        simp [map]
      have hcut : cut c (row.map f).head (row.map f).tail = _ := cut_map f c row.head row.tail
      rw [regroup_cons, regroup_cons, hcut]
      rcases cut c row.head row.tail with ⟨part, _ | ⟨next, parts⟩⟩
      · exact ih row
      · simp [hnested]

/-- The parts of a row that was cut, with the combinator between them, are the row. -/
theorem intercalate_cut (c : Combinator) (head : Grammar) (tail : List (Combinator × Grammar)) :
    c.separator.toList.intercalate
      (((cut c head tail).1 :: (cut c head tail).2).map chars) = chars ⟨head, tail⟩ := by
  induction tail generalizing head with
  | nil => simp [cut, List.intercalate_singleton]
  | cons dt rest ih =>
      obtain ⟨d, t⟩ := dt
      have ht := ih t
      rw [cut]
      rcases hcut : cut c t rest with ⟨part, parts⟩
      rw [hcut] at ht
      dsimp only at ht ⊢
      split
      · rename_i hd
        subst hd
        simp only [List.map_cons] at ht
        rw [List.map_cons, List.map_cons, List.intercalate_cons_cons, ht]
        simp [chars]
      · have hpart : chars ⟨head, (d, part.head) :: part.tail⟩ =
            head.text.toList ++ d.separator.toList ++ part.chars := by simp [chars]
        have hrow : chars ⟨head, (d, t) :: rest⟩ =
            head.text.toList ++ d.separator.toList ++ chars ⟨t, rest⟩ := by simp [chars]
        rw [List.map_cons, hpart, hrow, ← ht]
        cases parts with
        | nil => simp [List.intercalate_singleton]
        | cons next parts => simp [List.intercalate_cons_cons]

/-- Cutting a row at a combinator leaves none of it, and adds no other. -/
theorem joined_cut {c : Combinator} {tighter : List Combinator} (head : Grammar)
    {tail : List (Combinator × Grammar)} (h : ∀ ct ∈ tail, ct.1 ∈ c :: tighter) :
    ∀ part ∈ (cut c head tail).1 :: (cut c head tail).2, ∀ ct ∈ part.tail, ct.1 ∈ tighter := by
  induction tail generalizing head with
  | nil => simp [cut]
  | cons dt rest ih =>
      obtain ⟨d, t⟩ := dt
      have ht := ih t fun ct hct => h ct (List.mem_cons_of_mem _ hct)
      rw [cut]
      rcases hcut : cut c t rest with ⟨part, parts⟩
      rw [hcut] at ht
      dsimp only at ht ⊢
      split
      · intro q hq
        rcases List.mem_cons.mp hq with rfl | hq
        · simp
        · exact ht q hq
      · rename_i hd
        intro q hq
        rcases List.mem_cons.mp hq with rfl | hq
        · intro ct hct
          rcases List.mem_cons.mp hct with rfl | hct
          · have hmem := h (d, t) List.mem_cons_self
            simpa [hd] using hmem
          · exact ht part List.mem_cons_self ct hct
        · exact ht q (List.mem_cons_of_mem _ hq)

theorem eq_of_cut {c : Combinator} {head : Grammar} {tail : List (Combinator × Grammar)} {part : Row}
    (h : cut c head tail = (part, [])) : part = ⟨head, tail⟩ := by
  induction tail generalizing head part with
  | nil => cases h; rfl
  | cons dt rest ih =>
      obtain ⟨d, t⟩ := dt
      rcases hcut : cut c t rest with ⟨next, parts⟩
      rw [cut, hcut] at h
      dsimp only at h
      split at h
      · cases h
      · cases h
        rw [ih hcut]

/-- The text of a row nested by precedence is the text of the row. -/
theorem intercalate_regroup {cs : List Combinator} {row : Row} (h : ∀ ct ∈ row.tail, ct.1 ∈ cs) :
    (regroup cs row).2.separator.toList.intercalate
      ((regroup cs row).1.map fun t => t.text.toList) = row.chars := by
  induction cs generalizing row with
  | nil =>
      obtain ⟨head, tail⟩ := row
      have htail : tail = [] := List.eq_nil_iff_forall_not_mem.mpr fun ct hct => by simpa using h ct hct
      subst htail
      simp [regroup, terms, chars, List.intercalate_singleton]
  | cons c tighter ih =>
      have hjoined := joined_cut row.head h
      have hchars := intercalate_cut c row.head row.tail
      have hnested : ∀ part : Row, (∀ ct ∈ part.tail, ct.1 ∈ tighter) →
          (nested tighter part).text.toList = part.chars := by
        intro part hpart
        unfold nested
        split
        · rename_i htail
          rw [List.isEmpty_iff] at htail
          simp [chars, htail]
        · rw [← ih hpart, Grammar.text, Grammar.texts_eq_map, if_neg (by simp),
            String.toList_intercalate, List.map_map]
          rfl
      rw [regroup_cons]
      rcases hcut : cut c row.head row.tail with ⟨part, _ | ⟨next, parts⟩⟩
      · rw [hcut] at hjoined
        have hpart : part = row := eq_of_cut hcut
        exact ih (hpart ▸ hjoined part List.mem_cons_self)
      · rw [hcut] at hjoined hchars
        rw [← hchars]
        have hmap : (part :: next :: parts).map (fun r => (nested tighter r).text.toList) =
            (part :: next :: parts).map chars :=
          List.map_congr_left fun r hr => hnested r (hjoined r hr)
        dsimp only
        rw [List.map_map, ← hmap]
        rfl

/-- **The text of the group a row stands for is the text of the row.** -/
theorem text_toGroup {row : Row} (h : row.Joined) :
    (row.toGroup false).text.toList = row.chars ∧
      (row.toGroup true).text.toList = "[ ".toList ++ row.chars ++ " ]".toList := by
  have hbody : (String.intercalate (regroup Combinator.looseToTight row).2.separator
      (Grammar.texts (regroup Combinator.looseToTight row).1)).toList = row.chars := by
    rw [← intercalate_regroup h, Grammar.texts_eq_map, String.toList_intercalate, List.map_map]
    rfl
  constructor
  · exact hbody
  · rw [← hbody]
    simp [toGroup, Grammar.text]

/-- Nesting and fusing can be done in either order. -/
theorem fused_toGroup (row : Row) (bracketed : Bool) :
    (row.toGroup bracketed).fused = (row.map Grammar.fused).toGroup bracketed := by
  unfold toGroup
  rw [regroup_map fun c terms => Grammar.fused_group c terms false false]
  exact Grammar.fused_group _ _ _ _

end Row

/-! ## Whole groups and definitions -/

namespace Read

open ValueGrammar.Grammar

theorem fused_markNonEmpty (row : Row) :
    (markNonEmpty (row.toGroup true)).fused = markNonEmpty ((row.map fused).toGroup true) := by
  rw [← Row.fused_toGroup]
  simp only [Row.toGroup, markNonEmpty, fused_group]

theorem text_markNonEmpty (row : Row) :
    (markNonEmpty (row.toGroup true)).text = (row.toGroup true).text ++ "!" := by
  simp [Row.toGroup, markNonEmpty, text]

theorem fused_unwrap (g : Grammar) : (unwrap g).fused = unwrap g.fused := by
  by_cases h : ∃ c' c terms b n b' n', g = .group c' [.group c terms b n] b' n'
  · obtain ⟨c', c, terms, b, n, b', n', rfl⟩ := h
    simp only [unwrap, fused_group, List.map_cons, List.map_nil]
  · have hg : unwrap g = g := by
      rw [unwrap]
      intro c' c terms b n b' n' he
      exact h ⟨c', c, terms, b, n, b', n', he⟩
    rw [hg, unwrap]
    rintro c' c terms b n b' n' he
    obtain ⟨outer, rfl⟩ := eq_group_of_fused he
    rw [fused_group] at he
    obtain ⟨x, rfl, hx⟩ : ∃ x, outer = [x] ∧ x.fused = .group c terms b n := by
      simpa [List.map_eq_singleton_iff] using he
    obtain ⟨inner, rfl⟩ := eq_group_of_fused hx
    exact h ⟨c', c, inner, b, n, b', n', rfl⟩

theorem text_unwrap (row : Row) : (unwrap (row.toGroup false)).text = (row.toGroup false).text := by
  unfold Row.toGroup
  dsimp only
  generalize (Row.regroup Combinator.looseToTight row).1 = terms
  unfold unwrap
  split
  · rename_i he
    cases he
    simp [text]
  · rfl

end Read

end ValueGrammar

import Mathlib
import ValueGrammar.Proofs.Notation.Reading

/-!
# `ValueGrammar.Proofs.Notation` — the notation reads back

A grammar that was read is written by `Grammar.text` without the brackets and spaces it does not need,
and with the shortest sign of each multiplier. That text is itself in the notation. It is read as the
same grammar, with one exception: limits in braces applied to a lone `#` are taken for its own. Either
way the text does not change any more.

## Contents
- `Read.Resumes`: the reader takes the text of a term and goes on to its multipliers.
- `Read.reads_contentsWith`, `Read.reads_groupWithin`: rows of terms and bracketed groups.
- `Grammar.Written.resuming`: every term that can be written is resumed, by induction over the terms.
- `Grammar.IsDefinition.parse_text`: the text of a definition is read as the fused definition.
- `Grammar.parse_text_eq_iff`: what a grammar reads back as, and when that is the grammar itself.
- `Grammar.text_stable`: the text of what is read back is the text.
-/

namespace ValueGrammar

namespace Read

open ValueGrammar.Parser Grammar

variable {rest : List Char}

/-! ## Rows and groups -/

/-- The parser reads groups that are nested no deeper than their text is long, up to `n`. -/
def Nests (group : Parser Grammar) (n : Nat) : Prop :=
  ∀ c, ∃ depth, min n c.rest.length ≤ depth ∧ group c = groupWithin depth c

theorem nests_groupWithin {n depth : Nat} (h : n ≤ depth) : Nests (groupWithin depth) n :=
  fun _ => ⟨depth, by omega, rfl⟩

theorem nests_group (n : Nat) : Nests group n := fun c => ⟨c.rest.length + 1, by omega, rfl⟩

theorem Nests.mono {group : Parser Grammar} {m n : Nat} (h : Nests group n) (hmn : m ≤ n) :
    Nests group m := by
  intro c
  obtain ⟨depth, hd, hc⟩ := h c
  exact ⟨depth, by omega, hc⟩

/-- The rests that leave a term alone: the end, a space, or another multiplier, but no brace after a
lone `#`. -/
structure Follows (t : Grammar) (rest : List Char) : Prop where
  head : ∀ c ∈ rest.head?, c ∈ " ?*+#\x7b".toList
  brace : t.underHash?.isSome = true → rest.head? ≠ some '\x7b'

/-- The text of the term is taken whole, and the reader goes on to its multipliers. -/
def Resumes (group : Parser Grammar) (t : Grammar) : Prop :=
  ∀ rest, Follows t rest → ∀ n, ∃ fuel, rest.length < fuel ∧
    termWith group ⟨n, t.text.toList ++ rest⟩ =
      multipliers fuel t.fused ⟨n + t.text.toList.length, rest⟩

theorem resumes_of_primary {group : Parser Grammar} {t : Grammar}
    (h : ∀ rest, Follows t rest → (primaryWith group).Reads t.text.toList t.fused rest) :
    Resumes group t := by
  intro rest hrest n
  refine ⟨rest.length + 1, Nat.lt_succ_self _, ?_⟩
  unfold termWith
  change andThen (primaryWith group) _ _ = _
  rw [andThen, h rest hrest n]
  rfl

/-- The characters a term may start with: no space, and nothing that ends or joins terms. -/
def IsOpening (c : Char) : Prop := Scan.isSpace c = false ∧ c ∉ "]|&".toList

/-- The sign of a combinator between two terms, and the space after it if there is one. -/
theorem exists_sign {c : Combinator} (hc : c ∈ Combinator.looseToTight) {x : Char} {s : List Char}
    (hx : IsOpening x) :
    ∃ sign gap, c.separator.toList = ' ' :: (sign ++ gap) ∧
      combinator.Reads sign c (gap ++ x :: s) ∧ skipSpaces.Reads gap () (x :: s) ∧
      ∃ y r, sign ++ (gap ++ x :: s) = y :: r ∧ Scan.isSpace y = false ∧ y ≠ ']' := by
  have hblank : NotBlank (x :: s) := by rintro y ⟨⟩; exact hx.1
  have hspace : skipSpaces.Reads [' '] () (x :: s) := reads_space hblank
  have hall : ∀ y r, y ≠ '&' → ((fun _ => Combinator.all) <$> literal "&&").Refuses (y :: r) :=
    fun y r hy => refuses_map (refuses_literal fun hp => hy (List.cons_prefix_cons.mp hp).1.symm)
  unfold combinator
  simp only [Combinator.looseToTight, List.mem_cons, List.not_mem_nil, or_false] at hc
  rcases hc with rfl | rfl | rfl | rfl
  · refine ⟨['|'], [' '], rfl, ?_, hspace, '|', ' ' :: x :: s, rfl, by decide, by decide⟩
    refine reads_choice_of_refuses none (hall _ _ (by decide)) fun last => ?_
    refine reads_choice_of_refuses last (refuses_map (refuses_literal ?_)) fun _ => ?_
    · intro hp
      have hsecond := (List.cons_prefix_cons.mp (List.cons_prefix_cons.mp hp).2).1
      exact absurd hsecond (by decide)
    · exact reads_choice_cons _ (reads_map reads_char)
  · refine ⟨['|', '|'], [' '], rfl, ?_, hspace, '|', '|' :: ' ' :: x :: s, rfl, by decide, by decide⟩
    refine reads_choice_of_refuses none (hall _ _ (by decide)) fun _ => ?_
    exact reads_choice_cons _ (reads_map (reads_literal "||"))
  · refine ⟨['&', '&'], [' '], rfl, ?_, hspace, '&', '&' :: ' ' :: x :: s, rfl, by decide, by decide⟩
    exact reads_choice_cons none (reads_map (reads_literal "&&"))
  · obtain ⟨hend, hbar, hand⟩ : x ≠ ']' ∧ x ≠ '|' ∧ x ≠ '&' := by simpa using hx.2
    refine ⟨[], [], rfl, ?_, reads_noSpaces hblank, x, s, rfl, hx.1, hend⟩
    refine reads_choice_of_refuses none (hall _ _ hand) fun last => ?_
    refine reads_choice_of_refuses last (refuses_map (refuses_literal ?_)) fun _ => ?_
    · intro hp
      exact hbar (List.cons_prefix_cons.mp hp).1.symm
    refine reads_choice_of_refuses _ (refuses_map (refuses_char ?_)) fun _ => ?_
    · rintro y ⟨⟩
      exact hbar.symm
    refine reads_choice_cons _ (reads_peek ?_)
    split
    · rename_i heq
      exact absurd (Option.some.inj heq) hand
    · exact reads_pure

section row

variable {group : Parser Grammar} {blanks : List Char}

/-- The term is read in a row: nothing or a space comes after it. -/
structure ReadsTerm (group : Parser Grammar) (t : Grammar) : Prop where
  opening : ∃ c s, t.text.toList = c :: s ∧ IsOpening c
  reads : ∀ rest, (∀ c ∈ rest.head?, c = ' ') →
    (termWith group).Reads t.text.toList t.fused rest

/-- What comes after the last term of a row: the end, or a closing bracket after a space. -/
inductive Ends : List Char → List Char → Prop where
  | definition : Ends [] []
  | group (rest : List Char) : Ends [' '] (']' :: rest)

/-- The text of the further terms of a row. -/
def tailChars (tail : List (Combinator × Grammar)) : List Char :=
  tail.flatMap fun ct => ct.1.separator.toList ++ ct.2.text.toList

theorem head_tailChars {tail : List (Combinator × Grammar)}
    (hj : ∀ ct ∈ tail, ct.1 ∈ Combinator.looseToTight) (he : Ends blanks rest) :
    ∀ c ∈ (tailChars tail ++ (blanks ++ rest)).head?, c = ' ' := by
  cases tail with
  | nil => cases he <;> simp [tailChars]
  | cons ct tail =>
      have hc := hj ct List.mem_cons_self
      obtain ⟨sign, gap, hsep, -⟩ := exists_sign hc (x := 'a') (s := []) ⟨by decide, by decide⟩
      rw [tailChars, List.flatMap_cons, hsep]
      rintro c ⟨⟩
      rfl

theorem reads_moreTerms {tail : List (Combinator × Grammar)}
    (hj : ∀ ct ∈ tail, ct.1 ∈ Combinator.looseToTight) (ht : ∀ ct ∈ tail, ReadsTerm group ct.2)
    (he : Ends blanks rest) {fuel : Nat} (hfuel : tail.length < fuel) :
    (moreTerms (termWith group) fuel).Reads (tailChars tail ++ blanks)
      (tail.map (Prod.map id fused)) rest := by
  induction tail generalizing fuel with
  | nil =>
      obtain ⟨fuel, rfl⟩ : ∃ k, fuel = k + 1 := ⟨fuel - 1, by simp at hfuel; omega⟩
      unfold moreTerms
      cases he with
      | definition => exact reads_then (reads_noSpaces (by simp [NotBlank, tailChars])) (reads_peek reads_pure)
      | group rest =>
          refine reads_last (reads_space ?_) (reads_peek reads_pure)
          rintro c ⟨⟩; decide
  | cons ct tail ih =>
      obtain ⟨fuel, rfl⟩ : ∃ k, fuel = k + 1 := ⟨fuel - 1, by simp at hfuel; omega⟩
      have hj' : ∀ ct ∈ tail, ct.1 ∈ Combinator.looseToTight :=
        fun ct' h' => hj ct' (List.mem_cons_of_mem ct h')
      have hterm := ht ct List.mem_cons_self
      obtain ⟨x, s, htext, hx⟩ := hterm.opening
      obtain ⟨sign, gap, hsep, hcomb, hgap, y, r, hy, hyb, hye⟩ :=
        exists_sign (hj ct List.mem_cons_self) (s := s ++ (tailChars tail ++ (blanks ++ rest))) hx
      have hchars : tailChars (ct :: tail) ++ blanks =
          ' ' :: (sign ++ (gap ++ (ct.2.text.toList ++ (tailChars tail ++ blanks)))) := by
        simp [tailChars, hsep]
      have hahead : x :: (s ++ (tailChars tail ++ (blanks ++ rest))) =
          ct.2.text.toList ++ (tailChars tail ++ blanks) ++ rest := by simp [htext]
      rw [hahead] at hcomb hgap hy
      have hrow : sign ++ (gap ++ (ct.2.text.toList ++ (tailChars tail ++ blanks))) ++ rest =
          y :: r := by rw [← hy]; simp
      rw [hchars]
      unfold moreTerms
      refine reads_cons (reads_space ?_) (reads_peek ?_)
      · rw [hrow]
        rintro c ⟨⟩
        exact hyb
      rw [hrow, List.head?_cons]
      split
      · rename_i heq
        cases heq
      · rename_i heq
        exact absurd (Option.some.inj heq) hye
      · refine reads_bind (by simpa using hcomb) (reads_bind (by simpa using hgap) ?_)
        have hnext := head_tailChars hj' he
        rw [← List.append_assoc] at hnext
        refine reads_bind (hterm.reads _ hnext) (reads_last ?_ reads_pure)
        exact ih hj' (fun ct' h' => ht ct' (List.mem_cons_of_mem ct h')) (by simpa using hfuel)

theorem length_le_tailChars {tail : List (Combinator × Grammar)}
    (ht : ∀ ct ∈ tail, ReadsTerm group ct.2) : tail.length ≤ (tailChars tail).length := by
  induction tail with
  | nil => simp
  | cons ct tail ih =>
      obtain ⟨c, s, htext, -⟩ := (ht ct List.mem_cons_self).opening
      have hlen := ih fun ct' h' => ht ct' (List.mem_cons_of_mem ct h')
      simp only [tailChars, List.flatMap_cons, htext, List.length_append, List.length_cons] at hlen ⊢
      omega

/-- The text of a row is read as the row, and nested by precedence. -/
theorem reads_contentsWith {row : Row} (hj : row.Joined) (ht : ∀ t ∈ row.terms, ReadsTerm group t)
    (he : Ends blanks rest) (bracketed : Bool) :
    (contentsWith group bracketed).Reads (row.chars ++ blanks) ((row.map fused).toGroup bracketed)
      rest := by
  have htail : ∀ ct ∈ row.tail, ReadsTerm group ct.2 :=
    fun ct hct => ht ct.2 (List.mem_cons_of_mem _ (List.mem_map_of_mem hct))
  have hchars : row.chars ++ blanks = row.head.text.toList ++ (tailChars row.tail ++ blanks) :=
    List.append_assoc _ _ _
  have hnext := head_tailChars hj he
  rw [← List.append_assoc] at hnext
  rw [hchars]
  unfold contentsWith
  refine reads_bind ((ht row.head List.mem_cons_self).reads _ hnext) (reads_cursor fun n => ?_)
  refine reads_last (reads_moreTerms hj htail he ?_) reads_pure
  have hlen := length_le_tailChars htail
  simp only [List.length_append]
  omega

/-- The text of a bracketed group is read as the group; a `!` after it belongs to it. -/
theorem reads_groupWithin {row : Row} {depth : Nat} (hj : row.Joined)
    (ht : ∀ t ∈ row.terms, ReadsTerm (groupWithin depth) t) (nonEmpty : Bool)
    (hrest : nonEmpty = false → rest.head? ≠ some '!') :
    (groupWithin (depth + 1)).Reads
      ('[' :: ' ' :: ((row.chars ++ [' ']) ++ (']' :: if nonEmpty then ['!'] else [])))
      (if nonEmpty then markNonEmpty ((row.map fused).toGroup true)
        else (row.map fused).toGroup true) rest := by
  obtain ⟨c, s, htext, hc, hsigns⟩ := (ht row.head List.mem_cons_self).opening
  have hchars : ∀ r, (row.chars ++ r).head? = some c := fun r => by simp [Row.chars, htext]
  have hclose : ∀ r, NotBlank (']' :: r) := by rintro r x ⟨⟩; decide
  unfold groupWithin
  refine reads_cons reads_char (reads_cons (reads_space fun x hx => ?_)
    (reads_peek ?_))
  · rw [List.append_assoc, List.append_assoc, hchars] at hx
    cases hx
    exact hc
  rw [List.append_assoc, List.append_assoc, hchars]
  split
  · rename_i heq
    exact absurd (Option.some.inj heq) (by rintro rfl; exact hsigns (by decide))
  refine reads_bind (reads_contentsWith hj ht (.group _) true) ?_
  refine reads_then (reads_noSpaces (hclose _)) (reads_cons reads_require (reads_peek ?_))
  cases nonEmpty with
  | true => exact reads_last reads_skip reads_pure
  | false =>
      have hnext : ([] ++ rest).head? ≠ some '!' := hrest rfl
      simp only [Bool.false_eq_true, if_false]
      exact reads_pure

end row

/-! ## Terms -/

section term

variable {group : Parser Grammar}

/-- A name is a term of its own if it starts as one. -/
theorem primaryWith_of_isNameStart {c : Char} (hc : isNameStart c = true) {s : List Char}
    {t : Grammar} (h : keywordOrFunction.Reads (c :: s) t rest) :
    (primaryWith group).Reads (c :: s) t rest := by
  have hname : isNameChar c = true := by simp [isNameChar, hc]
  have hne : c ≠ '[' ∧ c ≠ '<' ∧ c ≠ '\'' ∧ c ≠ '"' ∧ c ≠ '@' ∧ c ≠ ',' := by
    refine ⟨?_, ?_, ?_, ?_, ?_, ?_⟩ <;> exact ne_of_isNameChar hname (by decide)
  refine reads_peek ?_
  simpa [hne, hc] using h

theorem reads_token {c : Char} (h : IsSign c) :
    (primaryWith group).Reads (Grammar.token c.toString).text.toList (.token c.toString) rest := by
  obtain ⟨-, hstart, hne⟩ := h
  have htext : (Grammar.token c.toString).text.toList = [c] := by simp [text]
  rw [htext]
  refine reads_peek ?_
  have hnot : c ≠ '[' ∧ c ≠ '<' ∧ c ≠ '\'' ∧ c ≠ '"' ∧ c ≠ '@' ∧ c ≠ ',' ∧ c ≠ ']' ∧ c ≠ '|' ∧
      c ≠ '&' := by simpa using hne
  simp [hnot, hstart]
  exact reads_last reads_skip reads_pure

end term

end Read

namespace Grammar

open ValueGrammar.Parser Read

theorem isOpening_of_isNameChar {c : Char} (h : isNameChar c = true) : IsOpening c := by
  refine ⟨isSpace_of_isNameChar h, ?_⟩
  have hne : c ≠ ']' ∧ c ≠ '|' ∧ c ≠ '&' := by
    refine ⟨?_, ?_, ?_⟩ <;> exact ne_of_isNameChar h (by decide)
  simpa using hne

/-- A term starts with a character that neither ends nor joins terms. -/
theorem Written.opening {t : Grammar} (h : t.Written) :
    ∃ c s, t.text.toList = c :: s ∧ IsOpening c := by
  have hname : ∀ {n : String}, IsWord n → ∀ r, ∃ c s, n.toList ++ r = c :: s ∧ IsOpening c := by
    intro n hn r
    obtain ⟨c, s, hs⟩ := List.exists_cons_of_ne_nil hn.ne
    have hc : isNameChar c = true := hn.chars c (by rw [hs]; exact List.mem_cons_self)
    exact ⟨c, s ++ r, by rw [hs]; rfl, isOpening_of_isNameChar hc⟩
  -- all the other terms start with a sign of their own
  have hsign : ∀ (c : Char) {g : Grammar}, IsOpening c → (∃ s, g.text.toList = c :: s) →
      ∃ c s, g.text.toList = c :: s ∧ IsOpening c :=
    fun c g hc ⟨s, hs⟩ => ⟨c, s, hs, hc⟩
  induction h with
  | group hj _ _ => exact hsign '[' ⟨by decide, by decide⟩ ⟨_, (Row.text_toGroup hj).2⟩
  | nonEmpty hj _ _ =>
      refine hsign '[' ⟨by decide, by decide⟩ ?_
      rw [text_markNonEmpty, String.toList_append, (Row.text_toGroup hj).2]
      exact ⟨_, rfl⟩
  | multiplier _ _ ih =>
      obtain ⟨c, s, hs, hc⟩ := ih
      refine hsign c hc ?_
      rw [text, String.toList_append, hs]
      exact ⟨_, rfl⟩
  | keyword h => simpa [text] using hname h []
  | atKeyword h => exact hsign '@' ⟨by decide, by decide⟩ (by simp [text])
  | function h => simpa [text] using hname h ['(']
  | @type _ _ range h _ _ =>
      refine hsign '<' ⟨by decide, by decide⟩ ?_
      cases range <;> simp [text, typeText]
  | property h => exact hsign '<' ⟨by decide, by decide⟩ (by simp [text])
  | @token c h =>
      obtain ⟨hspace, -, hne⟩ := h
      refine hsign c ⟨hspace, fun hm => hne ?_⟩ (by simp [text])
      simp only [String.reduceToList, List.mem_cons, List.not_mem_nil, or_false] at hm ⊢
      rcases hm with rfl | rfl | rfl <;> simp
  | @string quote body hq h =>
      refine hsign quote ?_ (by simp [text])
      rcases hq with rfl | rfl <;> exact ⟨by decide, by decide⟩
  | comma => exact hsign ',' ⟨by decide, by decide⟩ ⟨[], rfl⟩

/-- What the induction over the terms carries: reading goes on past the text of the term, and where
the term is a lone `#`, past the text of what is under it. -/
structure Resuming (t : Grammar) : Prop where
  self : ∀ group, Nests group t.text.toList.length → Resumes group t
  under : ∀ u, t = .multiplier u 1 none true →
    ∀ group, Nests group u.text.toList.length → Resumes group u

/-- A term without multipliers is resumed if it is read. -/
theorem Resuming.of_primary {t : Grammar} (hm : ∀ u, t ≠ .multiplier u 1 none true)
    (h : ∀ group, Nests group t.text.toList.length → ∀ rest, Follows t rest →
      (primaryWith group).Reads t.text.toList t.fused rest) : Resuming t where
  self group hg := resumes_of_primary fun rest hrest => h group hg rest hrest
  under u hu := absurd hu (hm u)

theorem Resuming.readsTerm {t : Grammar} (hw : t.Written) (h : Resuming t) {group : Parser Grammar}
    (hg : Nests group t.text.toList.length) : ReadsTerm group t where
  opening := hw.opening
  reads := by
    intro rest hrest n
    have hfollows : Follows t rest := by
      refine ⟨fun c hc => ?_, fun _ heq => ?_⟩
      · rw [hrest c hc]; decide
      · exact absurd (hrest _ heq) (by decide)
    obtain ⟨fuel, -, hterm⟩ := h.self group hg rest hfollows n
    rw [hterm, multipliers_stop]
    intro c hc
    rw [hrest c hc]
    decide

/-- One more multiplier that is not glued: after the text of the term comes the sign, and what is
read is put around what was read of the term. -/
theorem resumes_multiplier {group : Parser Grammar} {u : Grammar} {min : Int} {max : Option Int}
    {separated : Bool} (hl : IsLimits min max) (hu : Resumes group u)
    (hg : (Grammar.multiplier u min max separated).glued = false) :
    Resumes group (.multiplier u min max separated) := by
  intro rest hf n
  obtain ⟨c, s, hsign, hc, hbrace⟩ := exists_multiplierText min max separated
  have hfollows : Follows u ((multiplierText min max separated).toList ++ rest) := by
    rw [hsign]
    refine ⟨?_, fun hhash heq => ?_⟩
    · rintro x ⟨⟩
      exact List.mem_cons_of_mem _ hc
    · obtain ⟨hs, hb⟩ := hbrace (Option.some.inj heq)
      have hglued : (Grammar.multiplier u min max separated).glued = true := by
        rw [hs, glued, hhash, hb]
        rfl
      rw [hg] at hglued
      cases hglued
  have hread : (Read.multiplier u.fused).Reads (multiplierText min max separated).toList
      (.multiplier u.fused min max separated) rest := by
    refine reads_multiplier hl fun hhash => hf.brace ?_
    rw [isSome_underHash?] at hhash ⊢
    exact hhash
  obtain ⟨fuel, hfuel, hterm⟩ := hu _ hfollows n
  have hpos : 0 < (multiplierText min max separated).toList.length := by rw [hsign]; simp
  rw [List.length_append] at hfuel
  obtain ⟨k, rfl⟩ : ∃ k, fuel = k + 1 := ⟨fuel - 1, by omega⟩
  refine ⟨k, by omega, ?_⟩
  rw [fused_of_not_glued hg, text, String.toList_append, List.append_assoc, hterm,
    multipliers_succ hread, List.length_append, Nat.add_assoc]

/-- Limits in braces after a lone `#` are read as its own. -/
theorem resumes_glued {group : Parser Grammar} {u : Grammar} {min : Int} {max : Option Int}
    (hl : IsLimits min max) (hb : braced min max = true) (hu : Resumes group u) :
    Resumes group (.multiplier (.multiplier u 1 none true) min max false) := by
  intro rest hf n
  have hfollows : Follows (.multiplier u min max true) rest := by
    refine ⟨hf.head, fun hhash => ?_⟩
    rw [isSome_underHash?] at hhash
    obtain ⟨-, rfl, rfl⟩ := hhash
    cases hb
  have htext : (Grammar.multiplier (.multiplier u 1 none true) min max false).text =
      (Grammar.multiplier u min max true).text := by
    rw [text, text, text, multiplierText_hash hb, String.append_assoc]
    rfl
  have hfused : (Grammar.multiplier u min max true).fused = .multiplier u.fused min max true :=
    fused_of_not_glued rfl
  rw [htext, fused_of_glued hb, ← hfused]
  exact resumes_multiplier hl hu rfl rest hfollows n

theorem length_le_chars {row : Row} {t : Grammar} (h : t ∈ row.terms) :
    t.text.toList.length ≤ row.chars.length := by
  rcases List.mem_cons.mp h with rfl | h
  · simp [Row.chars]
  · obtain ⟨ct, hct, rfl⟩ := List.mem_map.mp h
    have hpart : List.Sublist (ct.1.separator.toList ++ ct.2.text.toList) (tailChars row.tail) := by
      rw [tailChars, List.flatMap_def]
      refine List.sublist_flatten_of_mem ?_
      exact List.mem_map.mpr ⟨ct, hct, rfl⟩
    have hlen := hpart.length_le
    rw [List.length_append] at hlen
    have hchars : row.chars.length = row.head.text.toList.length + (tailChars row.tail).length :=
      List.length_append
    omega

/-- A bracketed group is resumed if its terms are. -/
theorem Resuming.group {row : Row} (hj : row.Joined) (hw : ∀ t ∈ row.terms, t.Written)
    (ht : ∀ t ∈ row.terms, Resuming t) (nonEmpty : Bool) :
    Resuming (if nonEmpty then markNonEmpty (row.toGroup true) else row.toGroup true) := by
  have htext : (if nonEmpty then markNonEmpty (row.toGroup true)
      else row.toGroup true).text.toList =
        '[' :: ' ' :: ((row.chars ++ [' ']) ++ (']' :: if nonEmpty then ['!'] else [])) := by
    cases nonEmpty with
    | true => simp [text_markNonEmpty, (Row.text_toGroup hj).2]
    | false => simp [(Row.text_toGroup hj).2]
  have hfused : (if nonEmpty then markNonEmpty (row.toGroup true) else row.toGroup true).fused =
      if nonEmpty then markNonEmpty ((row.map fused).toGroup true)
      else (row.map fused).toGroup true := by
    cases nonEmpty with
    | true => exact fused_markNonEmpty row
    | false => exact Row.fused_toGroup row true
  refine .of_primary (fun u hu => ?_) fun group hg rest hf n => ?_
  · cases nonEmpty <;> cases hu
  obtain ⟨depth, hdepth, hgroup⟩ :=
    hg ⟨n, (if nonEmpty then markNonEmpty (row.toGroup true) else row.toGroup true).text.toList ++ rest⟩
  rw [List.length_append] at hdepth
  have hlen : row.chars.length + 2 ≤ depth := by
    have := congrArg List.length htext
    simp only [List.length_cons, List.length_append] at this
    omega
  obtain ⟨k, rfl⟩ : ∃ k, depth = k + 1 := ⟨depth - 1, by omega⟩
  have hterms : ∀ t ∈ row.terms, ReadsTerm (groupWithin k) t := fun t hm =>
    (ht t hm).readsTerm (hw t hm) (nests_groupWithin (by have := length_le_chars hm; omega))
  rw [hfused]
  rw [htext] at hgroup ⊢
  change group _ = _
  rw [hgroup]
  refine reads_groupWithin hj hterms nonEmpty (fun _ heq => ?_) n
  exact absurd (hf.head _ heq) (by decide)

theorem Written.resuming {t : Grammar} (h : t.Written) : Resuming t := by
  -- a term without multipliers that is no group
  have hleaf : ∀ {g : Grammar}, (∀ c ts b n, g ≠ .group c ts b n) →
      (∀ t min max separated, g ≠ .multiplier t min max separated) →
      (∀ group rest, Follows g rest → (primaryWith group).Reads g.text.toList g rest) →
      Resuming g := by
    intro g hg hm hread
    refine .of_primary (fun u => hm u 1 none true) fun group _ rest hrest => ?_
    rw [fused_leaf hg hm]
    exact hread group rest hrest
  have hnext : ∀ {g : Grammar} {rest}, Follows g rest → ∀ c ∈ rest.head?,
      isNameChar c = false ∧ c ≠ '(' := by
    intro g rest hf c hc
    have hmem := hf.head c hc
    simp only [String.reduceToList, List.mem_cons, List.not_mem_nil, or_false] at hmem
    rcases hmem with rfl | rfl | rfl | rfl | rfl | rfl <;> exact ⟨by decide, by decide⟩
  induction h with
  | group hj hts ih => exact Resuming.group hj hts ih false
  | nonEmpty hj hts ih => exact Resuming.group hj hts ih true
  | @multiplier u min max separated hw hl ih =>
      refine ⟨fun group hg => ?_, fun v hv group hg => ?_⟩
      · rw [text, String.toList_append, List.length_append] at hg
        cases hglued : (Grammar.multiplier u min max separated).glued with
        | true =>
            obtain ⟨v, rfl, rfl, hb⟩ := glued_iff.mp hglued
            refine resumes_glued hl hb (ih.under v rfl group (hg.mono ?_))
            rw [text, String.toList_append, List.length_append]
            omega
        | false => exact resumes_multiplier hl (ih.self group (hg.mono (by omega))) hglued
      · cases hv
        exact ih.self group hg
  | @keyword name h =>
      refine hleaf (by simp) (by simp) fun group rest hf => ?_
      have hread := reads_keyword h (hnext hf)
      obtain ⟨c, s, hs⟩ := List.exists_cons_of_ne_nil h.ne
      have hc : isNameStart c = true := h.start c (by rw [hs]; rfl)
      rw [hs] at hread
      rw [text, hs]
      exact primaryWith_of_isNameStart hc hread
  | @atKeyword name h =>
      refine hleaf (by simp) (by simp) fun group rest hf => ?_
      have htext : (Grammar.atKeyword name).text.toList = '@' :: name.toList := by simp [text]
      rw [htext]
      exact reads_peek (reads_atKeyword h fun c hc => (hnext hf c hc).1)
  | @function name h =>
      refine hleaf (by simp) (by simp) fun group rest hf => ?_
      have hread : keywordOrFunction.Reads (name.toList ++ ['(']) (.function name) rest :=
        reads_function h
      obtain ⟨c, s, hs⟩ := List.exists_cons_of_ne_nil h.ne
      have hc : isNameStart c = true := h.start c (by rw [hs]; rfl)
      have htext : (Grammar.function name).text.toList = c :: (s ++ ['(']) := by simp [text, hs]
      rw [hs] at hread
      rw [htext]
      exact primaryWith_of_isNameStart hc hread
  | @type name parens range h hp hr =>
      refine hleaf (by simp) (by simp) fun group rest _ => ?_
      have hread : reference.Reads (Grammar.type (name ++ parens) range).text.toList
          (.type (name ++ parens) range) rest := reads_reference_type h hp hr
      obtain ⟨s, hs⟩ : ∃ s, (Grammar.type (name ++ parens) range).text.toList = '<' :: s := by
        cases range <;> simp [text, typeText]
      rw [hs] at hread ⊢
      exact reads_peek hread
  | @property name h =>
      refine hleaf (by simp) (by simp) fun group rest _ => ?_
      have hread : reference.Reads (Grammar.property name).text.toList (.property name) rest :=
        reads_reference_property h
      obtain ⟨s, hs⟩ : ∃ s, (Grammar.property name).text.toList = '<' :: s := by simp [text]
      rw [hs] at hread ⊢
      exact reads_peek hread
  | token h => exact hleaf (by simp) (by simp) fun group rest _ => reads_token h
  | @string quote body hq h =>
      refine hleaf (by simp) (by simp) fun group rest _ => ?_
      rw [text, String.toList_ofList]
      rcases hq with rfl | rfl <;> exact reads_peek (reads_string h)
  | comma =>
      refine hleaf (by simp) (by simp) fun group rest _ => ?_
      exact reads_peek (reads_last reads_skip reads_pure)

/-- The text of a definition is read as the definition with glued multipliers made one. -/
theorem IsDefinition.parse_text {g : Grammar} (h : g.IsDefinition) :
    Grammar.parse g.text = .ok g.fused := by
  obtain ⟨row, hj, hw, rfl⟩ := h
  have hterms : ∀ t ∈ row.terms, ReadsTerm Read.group t :=
    fun t ht => (hw t ht).resuming.readsTerm (hw t ht) (nests_group _)
  have hread : definition.Reads row.chars (unwrap ((row.map fused).toGroup false)) [] := by
    obtain ⟨c, s, htext, hc, -⟩ := (hterms row.head List.mem_cons_self).opening
    have hblank : NotBlank (row.chars ++ []) := by
      intro x hx
      simp [Row.chars, htext] at hx
      exact hx ▸ hc
    have hcontents := reads_contentsWith hj hterms .definition false
    rw [List.append_nil] at hcontents
    unfold definition
    refine reads_then (reads_noSpaces hblank) (reads_last hcontents ?_)
    exact reads_then (reads_noSpaces (by simp [NotBlank])) (reads_peek reads_pure)
  have htext : (unwrap (row.toGroup false)).text.toList = row.chars := by
    rw [text_unwrap, (Row.text_toGroup hj).1]
  have hrun := hread 0
  rw [List.append_nil] at hrun
  unfold Grammar.parse Cursor.start
  rw [htext, hrun, fused_unwrap, Row.fused_toGroup]

/-! ## Reading back -/

/-- **What a grammar reads back as.** The text of a grammar that was read is read without an error, as
the grammar with glued multipliers made one; so it is the same grammar exactly if no limits in braces
are applied to a lone `#`. -/
theorem parse_text_eq_iff {source : String} {g : Grammar} (h : Grammar.parse source = .ok g) :
    Grammar.parse g.text = .ok g.fused ∧
      (Grammar.parse g.text = .ok g ↔ ∀ node ∈ g.nodes, node.glued = false) := by
  have hread : Grammar.parse g.text = .ok g.fused := (isDefinition_of_parse h).parse_text
  refine ⟨hread, ?_⟩
  rw [hread, Except.ok.injEq]
  exact fused_eq_self_iff g

/-- Multipliers on each other, none of them glued, around a group that must not be empty. -/
theorem parse_text_eq_iff_stacked :
    ∃ g, Grammar.parse "[a&&b(]!#\x7b2\x7d\x7b1,3\x7d?" = .ok g ∧ Grammar.parse g.text = .ok g := by
  have hread : Grammar.parse "[a&&b(]!#\x7b2\x7d\x7b1,3\x7d?" =
      .ok (.group .juxtapose [.multiplier (.multiplier (.multiplier
        (.group .all [.keyword "a", .function "b"] true true) 2 (some 2) true) 1 (some 3) false)
          0 (some 1) false] false false) := by cbv
  exact ⟨_, hread, (parse_text_eq_iff hread).2.mpr (by decide)⟩

/-- Twice one or more, between commas, is written as two between commas. -/
theorem parse_text_glued :
    ∃ g, Grammar.parse "a#\x7b1,\x7d\x7b2\x7d" = .ok g ∧ g.text = "a#\x7b2\x7d" ∧
      Grammar.parse g.text ≠ .ok g := by
  have hread : Grammar.parse "a#\x7b1,\x7d\x7b2\x7d" =
      .ok (.group .juxtapose [.multiplier (.multiplier (.keyword "a") 1 none true) 2 (some 2) false]
        false false) := by cbv
  have hback : Grammar.parse "a#\x7b2\x7d" =
      .ok (.group .juxtapose [.multiplier (.keyword "a") 2 (some 2) true] false false) := by cbv
  refine ⟨_, hread, rfl, fun h => ?_⟩
  cases hback.symm.trans h

/-- **The text of a grammar is a normal form.** Whatever spelling a grammar was read from, its text is
in the notation, and the grammar read from it has the same text. -/
theorem text_stable {source : String} {g : Grammar} (h : Grammar.parse source = .ok g) :
    ∃ g', Grammar.parse g.text = .ok g' ∧ g'.text = g.text :=
  ⟨g.fused, (isDefinition_of_parse h).parse_text, text_fused g⟩

/-- The text is stable also where it reads back as another grammar. -/
theorem text_stable_respelled :
    ∃ g g', Grammar.parse " <a [ ,Infinity ]>#\x7b1,\x7d\x7b2,2\x7d" = .ok g ∧
      Grammar.parse g.text = .ok g' ∧ g'.text = "<a [-∞,∞]>#\x7b2\x7d" := by
  have hread : Grammar.parse " <a [ ,Infinity ]>#\x7b1,\x7d\x7b2,2\x7d" =
      .ok (.group .juxtapose [.multiplier (.multiplier
        (.type "a" (some ⟨.infinite true, .infinite false⟩)) 1 none true) 2 (some 2) false]
          false false) := by cbv
  obtain ⟨g', hback, htext⟩ := text_stable hread
  exact ⟨_, g', hread, hback, htext.trans rfl⟩

end Grammar

end ValueGrammar

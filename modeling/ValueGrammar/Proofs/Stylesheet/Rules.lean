import ValueGrammar.Stylesheet.Event
import ValueGrammar.Text.Blank
import Mathlib.Data.List.DropRight
import Mathlib.Data.List.Infix

/-!
# `ValueGrammar.Proofs.Stylesheet.Rules` — the rules that are open at a place of a stylesheet

A rule is open until an end comes that is its own, that is until there were more ends than begins
since. This can be read off the events without a stack. The rules open after some events are nested,
and the number of rules that began and did not end since one of them began is the number of those
inside it. So an end closes the rule that began last, which is what a stack of rules does.

## Contents
- `Event.Open`, `Event.openRules`: the places where the rules begin that are open after some events.
- `Event.heads`, `Event.headOf`, `Event.selectorIn`: the selectors of rules.
- `Event.Complete`: events after which nothing is open.
- `Event.nested`: how deep the open rules are; `Event.openRules_of_ends`: what an end closes.
-/

namespace ValueGrammar

namespace Event

variable {es : List Event} {e : Event} {j : Nat}

/-! ## Which rules are open -/

/-- The event begins a rule. -/
def begins : Event → Bool
  | .beginRuleset _ => true
  | .beginAtRule _ _ => true
  | _ => false

/-- The event ends a rule. -/
def ends : Event → Bool
  | .endRuleset => true
  | .endAtRule => true
  | _ => false

/-- The event is a declaration, of a custom property or another one. -/
def declares : Event → Bool
  | .declaration _ _ => true
  | .customProperty _ _ => true
  | _ => false

theorem ends_of_begins (h : e.begins = true) : e.ends = false := by
  cases e with
  | beginRuleset | beginAtRule => rfl
  | _ => cases h

theorem begins_of_ends (h : e.ends = true) : e.begins = false := by
  cases e with
  | endRuleset | endAtRule => rfl
  | _ => cases h

/-- No end among the events is that of a rule that began before them. -/
def Inside (es : List Event) : Prop :=
  ∀ part, part <+: es → part.countP ends ≤ part.countP begins

instance (es : List Event) : Decidable (Inside es) :=
  decidable_of_iff (∀ part ∈ es.inits, part.countP ends ≤ part.countP begins) (by
    simp only [List.mem_inits, Inside])

/-- A rule begins at the place and is open after the events. -/
def Open (es : List Event) (j : Nat) : Prop :=
  es[j]?.any begins = true ∧ Inside (es.drop (j + 1))

instance (es : List Event) (j : Nat) : Decidable (Open es j) :=
  inferInstanceAs (Decidable (_ ∧ _))

/-- The places where the rules begin that are open after the events, the outermost rule first. -/
def openRules (es : List Event) : List Nat := (List.range es.length).filter fun j => Open es j

/-- How many rules began since the place and did not end. -/
def level (es : List Event) (j : Nat) : Nat :=
  (es.drop (j + 1)).countP begins - (es.drop (j + 1)).countP ends

/-! ## Selectors -/

/-- The text of a selector, of a rule or in the list before one. -/
def headText? : Event → Option String
  | .selector values => some (Text.trim (Token.joined values))
  | .beginRuleset values => some (Text.trim (Token.joined values))
  | .beginAtRule name values => some (Text.trim (name ++ Token.joined values))
  | _ => none

/-- The selectors in a list the rule of which has not begun: those since the last rule began. -/
def heads (es : List Event) : List String := (es.rtakeWhile (!·.begins)).filterMap headText?

/-- The selector of the rule that begins at the place, with the list before it. -/
def headOf (es : List Event) (j : Nat) : String :=
  String.intercalate ", " (heads (es.take j) ++ (es[j]?.bind headText?).toList)

/-- The selectors of the rules that are open after the events, as one text. -/
def selectorIn (es : List Event) : String := String.intercalate " " ((openRules es).map (headOf es))

/-- Every rule that begins ends, and after every selector of a list a rule begins. An end without a
rule does nothing, so there may be any number of them. -/
structure Complete (es : List Event) : Prop where
  closed : ∀ j, ¬ Open es j
  headed : ∀ before values rest, es = before ++ .selector values :: rest →
    ∃ b ∈ rest, b.begins = true

theorem openRules_eq_nil_iff : openRules es = [] ↔ ∀ j, ¬ Open es j := by
  rw [openRules, List.filter_eq_nil_iff]
  constructor
  · intro h j hopen
    by_cases hj : j < es.length
    · exact h j (List.mem_range.mpr hj) (decide_eq_true hopen)
    · have hnone : es[j]? = none := List.getElem?_eq_none (Nat.le_of_not_lt hj)
      rw [Open, hnone] at hopen
      cases hopen.1
  · intro h j _
    rw [decide_eq_true_eq]
    exact h j

theorem heads_append_of_not_begins {rest : List Event} (h : ∀ b ∈ rest, b.begins = false)
    (before : List Event) : heads (before ++ rest) = heads before ++ rest.filterMap headText? := by
  have hall : ∀ b ∈ rest.reverse, (!b.begins) = true := by
    intro b hb
    rw [h b (List.mem_reverse.mp hb)]
    rfl
  unfold heads List.rtakeWhile
  rw [List.reverse_append, List.takeWhile_append_of_pos hall, List.reverse_append,
    List.reverse_reverse, List.filterMap_append]

theorem heads_eq_nil_iff : heads es = [] ↔ ∀ before values rest,
    es = before ++ .selector values :: rest → ∃ b ∈ rest, b.begins = true := by
  constructor
  · intro h before values rest hes
    by_contra hnone
    have hrest : ∀ b ∈ Event.selector values :: rest, b.begins = false := by
      intro b hb
      rcases List.mem_cons.mp hb with rfl | hb
      · rfl
      · by_contra hbegins
        exact hnone ⟨b, hb, by simpa using hbegins⟩
    rw [hes, heads_append_of_not_begins hrest] at h
    exact List.cons_ne_nil _ _ (List.append_eq_nil_iff.mp h).2
  · intro h
    refine List.filterMap_eq_nil_iff.mpr fun e he => ?_
    have hbegins : e.begins = false := by simpa using List.mem_rtakeWhile_imp he
    cases e with
    | selector values =>
        -- a rule would begin after it, and it would not be among the last events
        obtain ⟨before, hbefore⟩ := List.rtakeWhile_suffix (!·.begins) es
        obtain ⟨first, rest, hsplit⟩ := List.append_of_mem he
        have hes : es = (before ++ first) ++ .selector values :: rest := by
          rw [List.append_assoc, ← hsplit, hbefore]
        obtain ⟨b, hb, hb'⟩ := h _ values rest hes
        have hmem : b ∈ es.rtakeWhile (!·.begins) := by
          rw [hsplit]
          exact List.mem_append_right _ (List.mem_cons_of_mem _ hb)
        have hnot : b.begins = false := by simpa using List.mem_rtakeWhile_imp hmem
        rw [hnot] at hb'
        cases hb'
    | beginRuleset | beginAtRule => cases hbegins
    | _ => rfl

theorem complete_iff : Complete es ↔ openRules es = [] ∧ heads es = [] := by
  rw [openRules_eq_nil_iff, heads_eq_nil_iff]
  exact ⟨fun h => ⟨h.closed, h.headed⟩, fun h => ⟨h.1, h.2⟩⟩

instance (es : List Event) : Decidable (Complete es) := decidable_of_iff _ complete_iff.symm

/-! ## One more event -/

theorem headOf_append (h : j < es.length) (e : Event) : headOf (es ++ [e]) j = headOf es j := by
  unfold headOf
  rw [List.take_append_of_le_length (Nat.le_of_lt h), List.getElem?_append_left h]

/-- The selector of a rule that begins next. -/
theorem headOf_next (es : List Event) (e : Event) :
    headOf (es ++ [e]) es.length = String.intercalate ", " (heads es ++ e.headText?.toList) := by
  unfold headOf
  rw [List.take_left, List.getElem?_concat_length]
  rfl

theorem heads_of_begins (h : e.begins = true) (es : List Event) : heads (es ++ [e]) = [] := by
  unfold heads
  rw [List.rtakeWhile_concat_neg _ _ _ (by rw [h]; decide)]
  rfl

theorem heads_of_not_begins (h : e.begins = false) (es : List Event) :
    heads (es ++ [e]) = heads es ++ e.headText?.toList := by
  rw [heads_append_of_not_begins (List.forall_mem_singleton.mpr h)]
  cases he : e.headText? <;> simp [he]

theorem drop_append_singleton (h : j < es.length) (e : Event) :
    (es ++ [e]).drop (j + 1) = es.drop (j + 1) ++ [e] :=
  List.drop_append_of_le_length h

theorem Inside.le (h : Inside es) : es.countP ends ≤ es.countP begins := h es (List.prefix_refl es)

theorem inside_concat_iff :
    Inside (es ++ [e]) ↔ Inside es ∧ (es ++ [e]).countP ends ≤ (es ++ [e]).countP begins := by
  constructor
  · intro h
    exact ⟨fun part hpart => h part (hpart.trans (List.prefix_append es [e])), h.le⟩
  · rintro ⟨h, hwhole⟩ part hpart
    rcases List.prefix_concat_iff.mp hpart with rfl | hpart
    · exact hwhole
    · exact h part hpart

/-- An end closes the rules with none inside; nothing else closes any. -/
theorem open_concat_iff (h : j < es.length) (e : Event) :
    Open (es ++ [e]) j ↔ Open es j ∧ (e.ends = true → 0 < level es j) := by
  unfold Open level
  rw [List.getElem?_append_left h, drop_append_singleton h, inside_concat_iff, List.countP_append,
    List.countP_append, and_assoc]
  refine and_congr_right fun _ => and_congr_right fun hinside => ?_
  have hle := hinside.le
  cases hends : e.ends with
  | true =>
      simp only [List.countP_singleton, hends, begins_of_ends hends, if_true, Bool.false_eq_true,
        if_false, true_implies]
      omega
  | false =>
      simp only [List.countP_singleton, hends, Bool.false_eq_true, if_false, false_implies, iff_true]
      omega

/-- A rule that begins is open. -/
theorem open_next_iff (es : List Event) (e : Event) :
    Open (es ++ [e]) es.length ↔ e.begins = true := by
  unfold Open
  rw [List.getElem?_concat_length, List.drop_eq_nil_of_le (by simp)]
  constructor
  · intro h
    exact h.1
  · intro h
    refine ⟨h, fun part hpart => ?_⟩
    rw [List.prefix_nil.mp hpart]
    exact Nat.le_refl 0

theorem mem_openRules_iff : j ∈ openRules es ↔ j < es.length ∧ Open es j := by
  rw [openRules, List.mem_filter, List.mem_range, decide_eq_true_eq]

theorem openRules_concat (es : List Event) (e : Event) :
    openRules (es ++ [e]) =
      ((openRules es).filter fun j => e.ends = true → 0 < level es j) ++
        if e.begins then [es.length] else [] := by
  have hold : ((List.range es.length).filter fun j => Open (es ++ [e]) j) =
      (openRules es).filter fun j => e.ends = true → 0 < level es j := by
    rw [openRules, List.filter_filter]
    refine List.filter_congr fun j hj => ?_
    rw [← Bool.decide_and, decide_eq_decide, open_concat_iff (List.mem_range.mp hj), and_comm]
  have hnew : ([es.length].filter fun j => Open (es ++ [e]) j) =
      if e.begins then [es.length] else [] := by
    rw [List.filter_singleton]
    simp only [open_next_iff, Bool.cond_decide]
  rw [openRules, List.length_append, List.length_singleton, List.range_succ, List.filter_append,
    hold, hnew]

theorem openRules_of_not_ends (h : e.ends = false) (es : List Event) :
    openRules (es ++ [e]) = openRules es ++ if e.begins then [es.length] else [] := by
  rw [openRules_concat, List.filter_eq_self.mpr]
  intro j _
  simp [h]

/-! ## Nesting -/

/-- One more event changes how deep the open rules are, all of them alike. -/
theorem level_concat (hj : j ∈ openRules es) (e : Event) :
    level (es ++ [e]) j =
      if e.begins then level es j + 1 else if e.ends then level es j - 1 else level es j := by
  obtain ⟨hlt, -, hinside⟩ := mem_openRules_iff.mp hj
  have hle := hinside.le
  unfold level
  rw [drop_append_singleton hlt, List.countP_append, List.countP_append, List.countP_singleton,
    List.countP_singleton]
  by_cases hbegins : e.begins = true
  · simp only [hbegins, ends_of_begins hbegins, if_true, Bool.false_eq_true, if_false]
    omega
  · by_cases hends : e.ends = true
    · simp only [hbegins, hends, if_true, Bool.false_eq_true, if_false]
      omega
    · simp only [hbegins, hends, Bool.false_eq_true, if_false]
      rfl

theorem level_next (es : List Event) (e : Event) : level (es ++ [e]) es.length = 0 := by
  unfold level
  rw [List.drop_eq_nil_of_le (by simp)]
  rfl

/-- The rules open are nested: the innermost has no rule inside that is open, and each other has one
more than the next. -/
def Nested (es : List Event) : Prop :=
  (openRules es).reverse.map (level es) = List.range (openRules es).length

theorem Nested.cases (h : Nested es) :
    openRules es = [] ∨ ∃ outer inner, openRules es = outer ++ [inner] ∧ level es inner = 0 ∧
      outer.reverse.map (level es) = (List.range outer.length).map Nat.succ := by
  rcases List.eq_nil_or_concat (openRules es) with hnil | ⟨outer, inner, hrules⟩
  · exact .inl hnil
  · rw [List.concat_eq_append] at hrules
    unfold Nested at h
    rw [hrules, List.reverse_append, List.length_append, List.length_singleton,
      List.range_succ_eq_map] at h
    obtain ⟨hinner, houter⟩ := List.cons.inj h
    exact .inr ⟨outer, inner, hrules, hinner, houter⟩

theorem Nested.openRules_of_ends (h : Nested es) (hends : e.ends = true) :
    openRules (es ++ [e]) = (openRules es).dropLast := by
  rw [openRules_concat, begins_of_ends hends]
  rcases h.cases with hnil | ⟨outer, inner, hrules, hinner, houter⟩
  · rw [hnil]
    rfl
  · have hpositive : ∀ j ∈ outer, 0 < level es j := by
      intro j hj
      have hmem : level es j ∈ outer.reverse.map (level es) :=
        List.mem_map_of_mem (List.mem_reverse.mpr hj)
      rw [houter] at hmem
      obtain ⟨n, -, hn⟩ := List.mem_map.mp hmem
      omega
    rw [hrules, List.dropLast_concat, List.filter_append, List.filter_eq_self.mpr]
    · rw [List.filter_cons_of_neg]
      · simp
      · simp [hends, hinner]
    · intro j hj
      exact decide_eq_true fun _ => hpositive j hj

/-- **The rules open after some events are nested.** The induction is on the events, the last one
first. -/
theorem nested (es : List Event) : Nested es := by
  induction es using List.reverseRecOn with
  | nil => rfl
  | append_singleton es e ih =>
      have hlevel : ∀ rules : List Nat, (∀ j ∈ rules, j ∈ openRules es) →
          rules.map (level (es ++ [e])) = rules.map fun j => if e.begins then level es j + 1
            else if e.ends then level es j - 1 else level es j := by
        intro rules hrules
        exact List.map_congr_left fun j hj => level_concat (hrules j hj) e
      unfold Nested
      by_cases hbegins : e.begins = true
      · -- the new rule has nothing inside, and is inside all others
        rw [openRules_of_not_ends (ends_of_begins hbegins), if_pos hbegins, List.reverse_append,
          List.length_append, List.length_singleton, List.range_succ_eq_map, ← ih]
        show level (es ++ [e]) es.length :: (openRules es).reverse.map (level (es ++ [e])) = _
        rw [level_next, hlevel _ fun j hj => List.mem_reverse.mp hj]
        simp [hbegins]
      · by_cases hends : e.ends = true
        · rw [ih.openRules_of_ends hends]
          rcases ih.cases with hnil | ⟨outer, inner, hrules, -, houter⟩
          · rw [hnil]
            rfl
          · have hmem : ∀ j ∈ outer.reverse, j ∈ openRules es := by
              intro j hj
              rw [hrules]
              exact List.mem_append_left _ (List.mem_reverse.mp hj)
            have hless : outer.reverse.map (fun j => level es j - 1) =
                (outer.reverse.map (level es)).map (· - 1) := by
              rw [List.map_map]
              rfl
            rw [hrules, List.dropLast_concat, hlevel _ hmem]
            simp only [hbegins, hends, if_true, Bool.false_eq_true, if_false]
            rw [hless, houter, List.map_map]
            exact List.map_id _
        · rw [openRules_of_not_ends (by simpa using hends), if_neg hbegins, List.append_nil,
            hlevel _ fun j hj => List.mem_reverse.mp hj]
          simp only [hbegins, hends, Bool.false_eq_true, if_false]
          exact ih

/-- An end closes the rule that began last. -/
theorem openRules_of_ends (h : e.ends = true) (es : List Event) :
    openRules (es ++ [e]) = (openRules es).dropLast :=
  (nested es).openRules_of_ends h

end Event

end ValueGrammar

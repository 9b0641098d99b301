import ValueGrammar.Proofs.Case.Forms
import ValueGrammar.Proofs.Compilation

/-!
# `ValueGrammar.Proofs.Folding.Table` — tables and the alternatives they stand for

A compiler may fold alternatives that are keywords, functions or types named like functions into a
table. The states it makes differ from those of a compiler that does not only in that: where one has a
table, the other has the alternatives of the table one after the other. What may stand under which key
is left open here. A keyword or a function takes no tokens but those that are found under its key, as
long as names and tokens are ASCII: then two texts that are equal up to case have the same lower case.

## Contents
- `Text.IsAscii`, `Text.lower_eq_of_equalFold`: ASCII texts.
- `Leaf.Keyed`: leaves that are found under a key.
- `State.IsEntry`, `Tabled`: what may stand in a table, and tables with different keys.
- `State.inTurn`, `State.Spreads`: the states of the two compilers.
- `State.Spreads.branch`: building conditionals keeps the relation.
- `Grammar.Plain`: grammars whose alternatives in tables are keywords and functions.
- `Agree`: computations that fail alike, or succeed with related values.
- `Grammar.Tabulates`, `Compiler.spreads_compile`: the states of a grammar, with and without tables.
- `State.Unfolds`, `Compiler.unfolds_compile`: the states of a plain grammar.
-/

namespace ValueGrammar

/-! ## ASCII texts -/

namespace Text

/-- The text has only ASCII characters. -/
def IsAscii (s : String) : Prop := ∀ c ∈ s.toList, c.toNat < 0x80

instance (s : String) : Decidable (IsAscii s) :=
  List.decidableBAll (fun c : Char => c.toNat < 0x80) s.toList

theorem map_lowerChar {cs : List Char} (h : ∀ c ∈ cs, c.toNat < 0x80) :
    cs.map lowerChar = cs.map Char.toLower :=
  List.map_congr_left fun c hc => if_pos (h c hc)

theorem map_foldChar {cs : List Char} (h : ∀ c ∈ cs, c.toNat < 0x80) :
    cs.map foldChar = cs.map Char.toLower :=
  List.map_congr_left fun c hc => if_pos (h c hc)

variable {s t : String}

theorem toList_lower (h : IsAscii s) : (lower s).toList = s.toList.map Char.toLower := by
  rw [lower, String.toList_ofList, map_lowerChar h]

theorem isAscii_lower (h : IsAscii s) : IsAscii (lower s) := by
  intro c hc
  rw [toList_lower h] at hc
  obtain ⟨d, hd, rfl⟩ := List.mem_map.mp hc
  have hlt := h d hd
  rw [toNat_toLower]
  split <;> omega

theorem lower_append (s t : String) : lower (s ++ t) = lower s ++ lower t := by
  refine String.toList_inj.mp ?_
  simp [lower]

/-- ASCII texts that are equal up to case have the same lower case. -/
theorem lower_eq_of_equalFold (hs : IsAscii s) (ht : IsAscii t) (h : equalFold s t = true) :
    lower s = lower t := by
  rw [equalFold, beq_iff_eq, map_foldChar hs, map_foldChar ht] at h
  refine String.toList_inj.mp ?_
  rw [toList_lower hs, toList_lower ht, h]

end Text

theorem mem_of_mem_withoutHack {c : Char} {cs : List Char} (h : c ∈ withoutHack cs) : c ∈ cs := by
  induction cs with
  | nil => exact h
  | cons d cs ih =>
      rw [withoutHack_cons] at h
      split at h
      · cases h
      · rcases List.mem_cons.mp h with rfl | h
        · exact List.mem_cons_self
        · exact List.mem_cons_of_mem d (ih h)

theorem withoutHack_of_notMem {cs : List Char} (h : '\\' ∉ cs) : withoutHack cs = cs := by
  induction cs with
  | nil => rfl
  | cons c cs ih =>
      have hc : c ≠ '\\' := fun he => h (he ▸ List.mem_cons_self)
      rw [withoutHack_cons, if_neg fun hcut => hc hcut.1,
        ih fun hm => h (List.mem_cons_of_mem c hm)]

variable {s : String}

theorem isAscii_stripHack (h : Text.IsAscii s) : Text.IsAscii (stripHack s) := by
  intro c hc
  rw [stripHack, String.toList_ofList] at hc
  exact h c (mem_of_mem_withoutHack hc)

/-! ## Leaves with a key -/

/-- The leaf compares one token, and takes none but those found under the key. -/
def Leaf.Keyed (ts : List Token) (l : Leaf) (key : String) : Prop :=
  ∃ p, (∀ last range ahead, l.take last range ahead = takeOne p ahead) ∧
    ∀ t ∈ ts, p t = true → stripHack (Text.lower t.value) = key

variable {ts : List Token} {name : String}

theorem keyed_keyword (hts : ∀ t ∈ ts, Text.IsAscii t.value) (hname : Text.IsAscii name) :
    (Leaf.keyword (Text.lower name)).Keyed ts (Text.lower name) := by
  refine ⟨_, fun _ _ _ => rfl, fun t ht hp => ?_⟩
  have hlower := Text.lower_eq_of_equalFold (isAscii_stripHack (hts t ht)) (Text.isAscii_lower hname) hp
  rw [stripHack_lower, hlower, Text.lower_lower]

/-- The name of a function has no backslash, so that nothing is cut off from it. -/
theorem keyed_function (hts : ∀ t ∈ ts, Text.IsAscii t.value) (hname : Text.IsAscii name)
    (hchars : ∀ c ∈ name.toList, Read.isNameChar c = true) :
    (Leaf.function (Text.lower name ++ "(")).Keyed ts (Text.lower name ++ "(") := by
  have hparen : Text.lower "(" = "(" := rfl
  have hascii : Text.IsAscii (Text.lower name ++ "(") := by
    intro c hc
    rw [String.toList_append, List.mem_append] at hc
    rcases hc with hc | hc
    · exact Text.isAscii_lower hname c hc
    · obtain rfl : c = '(' := by simpa using hc
      decide
  have hplain : '\\' ∉ (Text.lower name ++ "(").toList := by
    rw [String.toList_append, Text.toList_lower hname, List.mem_append, not_or]
    refine ⟨fun hm => ?_, by decide⟩
    obtain ⟨c, hc, he⟩ := List.mem_map.mp hm
    obtain rfl := Text.toLower_eq_backslash_iff.mp he
    exact absurd (hchars _ hc) (by decide)
  refine ⟨_, fun _ _ _ => rfl, fun t ht hp => ?_⟩
  have hlower := Text.lower_eq_of_equalFold (hts t ht) hascii hp
  rw [hlower, Text.lower_append, Text.lower_lower, hparen, stripHack,
    withoutHack_of_notMem hplain, String.ofList_toList]

/-! ## States with and without tables -/

namespace State

/-- A comparison with tokens or a reference: what may stand in a table. -/
def IsEntry : State → Prop
  | .leaf _ _ => True
  | .call _ _ _ => True
  | _ => False

theorem IsEntry.not_isSentinel {s : State} (h : s.IsEntry) : ¬ s.IsSentinel := by
  cases s <;> first | exact id | exact h.elim

theorem IsEntry.branch {s : State} (h : s.IsEntry) (rest : State) :
    State.branch s .accept rest = if rest.isReject then s else .cond s .accept rest := by
  cases s with
  | leaf | call => simp [State.branch, isAccept, branch?]
  | _ => exact h.elim

end State

/-- A table with different keys, where `K` tells which state may stand under which key. -/
structure Tabled (K : String → State → Prop) (table : List (String × State)) : Prop where
  entries : ∀ entry ∈ table, entry.2.IsEntry ∧ K entry.1 entry.2
  distinct : (table.map Prod.fst).Nodup

theorem Tabled.mono {K K' : String → State → Prop} {table : List (String × State)}
    (hK : ∀ key s, K key s → K' key s) (h : Tabled K table) : Tabled K' table :=
  ⟨fun entry hentry => ⟨(h.entries entry hentry).1, hK _ _ (h.entries entry hentry).2⟩, h.distinct⟩

namespace State

/-- The states of a table one after the other, and `rest` after them. -/
def inTurn (table : List (String × State)) (rest : State) : State :=
  table.foldr (fun entry s => branch entry.2 .accept s) rest

/-- The second state is the first one with the alternatives of its tables in turn. -/
inductive Spreads (K : String → State → Prop) : State → State → Prop where
  | accept : Spreads K .accept .accept
  | reject : Spreads K .reject .reject
  | nonEmpty : Spreads K .nonEmpty .nonEmpty
  | cond {test next other test' next' other'} (ht : Spreads K test test')
      (hn : Spreads K next next') (ho : Spreads K other other') :
      Spreads K (.cond test next other) (.cond test' next' other')
  | loop {body body' sep} (h : Spreads K body body') : Spreads K (.loop body sep) (.loop body' sep)
  | again {body body' sep} (h : Spreads K body body') :
      Spreads K (.again body sep) (.again body' sep)
  | once {terms terms' all node} (h : List.Forall₂ (Spreads K) terms terms') :
      Spreads K (.once terms all node) (.once terms' all node)
  | leaf {l node} : Spreads K (.leaf l node) (.leaf l node)
  | call {r range node} : Spreads K (.call r range node) (.call r range node)
  | table {table rest rest' s s'} (ht : Tabled K table) (hne : table ≠ [])
      (h : Spreads K rest rest') (hs : s = branch (.enum table) .accept rest)
      (hs' : s' = inTurn table rest') : Spreads K s s'

variable {K : String → State → Prop} {s s' : State} {table : List (String × State)}

/-- The test and the continuation of a conditional without an alternative. -/
def merged? (s : State) : Option (State × State) :=
  match s.branch? with
  | some (test, next, other) => if other.isReject then some (test, next) else none
  | none => none

theorem IsEntry.spreads (h : s.IsEntry) : s.Spreads K s := by
  cases s with
  | leaf => exact .leaf
  | call => exact .call
  | _ => exact h.elim

theorem IsEntry.merged?_eq (h : s.IsEntry) : s.merged? = none := by
  cases s <;> first | rfl | exact h.elim

theorem branch_enum (table : List (String × State)) (rest : State) :
    branch (.enum table) .accept rest =
      if rest.isReject then .enum table else .cond (.enum table) .accept rest := by
  simp [branch, isAccept, branch?]

/-- States of a table in turn are one of them, or a conditional that goes on with the others. -/
theorem inTurn_cases (ht : Tabled K table) (hne : table ≠ []) (rest : State) :
    (inTurn table rest).IsEntry ∨
      ∃ s other, s.IsEntry ∧ inTurn table rest = .cond s .accept other ∧ other.isReject = false := by
  cases table with
  | nil => exact absurd rfl hne
  | cons entry table =>
      have hentry := (ht.entries entry List.mem_cons_self).1
      have heq : inTurn (entry :: table) rest =
          if (inTurn table rest).isReject then entry.2
          else .cond entry.2 .accept (inTurn table rest) := hentry.branch _
      rw [heq]
      cases hr : (inTurn table rest).isReject with
      | true => exact .inl (by rwa [if_pos rfl])
      | false => exact .inr ⟨_, _, hentry, by rw [if_neg Bool.false_ne_true], hr⟩

theorem inTurn_not_isSentinel (ht : Tabled K table) (hne : table ≠ []) (rest : State) :
    ¬ (inTurn table rest).IsSentinel := by
  rcases inTurn_cases ht hne rest with hentry | ⟨s, other, -, he, -⟩
  · exact hentry.not_isSentinel
  · rw [he]; exact id

/-- The two states end a path in the same way, if they do. -/
theorem Spreads.sentinel (h : Spreads K s s') :
    s = s' ∧ s.IsSentinel ∨ ¬ s.IsSentinel ∧ ¬ s'.IsSentinel := by
  cases h with
  | accept | reject | nonEmpty => exact .inl ⟨rfl, trivial⟩
  | table ht hne h hs hs' =>
      subst hs hs'
      exact .inr ⟨branch_not_isSentinel id, inTurn_not_isSentinel ht hne _⟩
  | _ => exact .inr ⟨id, id⟩

theorem isAccept_of_not_isSentinel (h : ¬ s.IsSentinel) : s.isAccept = false := by
  cases s <;> first | rfl | exact absurd trivial h

theorem isReject_of_not_isSentinel (h : ¬ s.IsSentinel) : s.isReject = false := by
  cases s <;> first | rfl | exact absurd trivial h

theorem Spreads.isAccept_eq (h : Spreads K s s') : s'.isAccept = s.isAccept := by
  rcases h.sentinel with ⟨rfl, -⟩ | ⟨hs, hs'⟩
  · rfl
  · rw [isAccept_of_not_isSentinel hs, isAccept_of_not_isSentinel hs']

theorem Spreads.isReject_eq (h : Spreads K s s') : s'.isReject = s.isReject := by
  rcases h.sentinel with ⟨rfl, -⟩ | ⟨hs, hs'⟩
  · rfl
  · rw [isReject_of_not_isSentinel hs, isReject_of_not_isSentinel hs']

theorem branch_eq_merged (test next other : State) :
    branch test next other =
      if next.isAccept && other.isReject then test
      else if test.isAccept && next.isAccept && other.isAccept then test
      else if next.isAccept then
        match test.merged? with
        | some (test', next') => .cond test' next' other
        | none => .cond test next other
      else .cond test next other := by
  unfold branch merged?
  split
  · rfl
  · split
    · rfl
    · split
      · cases test.branch? with
        | none => rfl
        | some parts =>
            simp only
            split <;> rfl
      · rfl

/-- The two states are merged into another conditional alike, or not at all. A table never is, and
neither are its alternatives in turn, since there is always something after the first of them. -/
theorem Spreads.merged? (h : Spreads K s s') :
    s.merged? = none ∧ s'.merged? = none ∨
      ∃ test next test' next', s.merged? = some (test, next) ∧ s'.merged? = some (test', next') ∧
        Spreads K test test' ∧ Spreads K next next' := by
  cases h with
  | @cond test next other test' next' other' ht hn ho =>
      simp only [State.merged?, State.branch?, ho.isReject_eq]
      cases other.isReject with
      | false => exact .inl ⟨rfl, rfl⟩
      | true => exact .inr ⟨_, _, _, _, rfl, rfl, ht, hn⟩
  | loop h => exact .inr ⟨_, _, _, _, rfl, rfl, h, .again h⟩
  | @again body body' sep h => cases sep <;> exact .inl ⟨rfl, rfl⟩
  | @table table rest rest' s s' ht hne h hs hs' =>
      subst hs hs'
      refine .inl ⟨?_, ?_⟩
      · rw [branch_enum]
        cases hr : rest.isReject with
        | false => simp [State.merged?, State.branch?, hr]
        | true => rfl
      · rcases inTurn_cases ht hne rest' with hentry | ⟨s, other, -, he, ho⟩
        · exact hentry.merged?_eq
        · rw [he]; simp [State.merged?, State.branch?, ho]
  | _ => exact .inl ⟨rfl, rfl⟩

/-- States may stand under more keys. The induction is on the relation, with one more motive for the
terms of a group in any order. -/
theorem Spreads.mono {K' : String → State → Prop} (hK : ∀ key s, K key s → K' key s)
    (h : Spreads K s s') : Spreads K' s s' := by
  refine @Spreads.rec K (fun s s' _ => Spreads K' s s')
    (fun terms terms' _ => List.Forall₂ (Spreads K') terms terms') .accept .reject .nonEmpty ?_ ?_ ?_
    ?_ .leaf .call ?_ .nil ?_ s s' h
  · intro _ _ _ _ _ _ _ _ _ ht hn ho
    exact .cond ht hn ho
  · intro _ _ _ _ h
    exact .loop h
  · intro _ _ _ _ h
    exact .again h
  · intro _ _ _ _ _ h
    exact .once h
  · intro _ _ _ _ _ ht hne _ hs hs' h
    exact .table (ht.mono hK) hne h hs hs'
  · intro _ _ _ _ _ _ h hrest
    exact .cons h hrest

/-- **Conditionals built of related states are related.** -/
theorem Spreads.branch {test next other test' next' other' : State} (ht : Spreads K test test')
    (hn : Spreads K next next') (ho : Spreads K other other') :
    Spreads K (State.branch test next other) (State.branch test' next' other') := by
  rw [branch_eq_merged, branch_eq_merged, ht.isAccept_eq, hn.isAccept_eq, ho.isAccept_eq,
    ho.isReject_eq]
  split
  · exact ht
  · split
    · exact ht
    · split
      · rcases ht.merged? with ⟨hm, hm'⟩ | ⟨_, _, _, _, hm, hm', ht', hn'⟩
        · rw [hm, hm']
          exact .cond ht hn ho
        · rw [hm, hm']
          exact .cond ht' hn' ho
      · exact .cond ht hn ho

end State

/-! ## Alternatives -/

namespace Compiler

variable {K : String → State → Prop} {fold : Bool}

/-- The alternatives compiled so far, with a table and without one. -/
def Alternatives.Spreads (K : String → State → Prop) (a a' : Alternatives) : Prop :=
  Tabled K (a.table.getD []) ∧ a.table ≠ some [] ∧ a'.table = none ∧
    ∃ rest', a.rest.Spreads K rest' ∧ a'.rest = State.inTurn (a.table.getD []) rest'

namespace Alternatives

variable {a a' : Alternatives} {term term' : State}

theorem Spreads.close (h : a.Spreads K a') :
    (a.close (standard fold)).Spreads K (a'.close (standard false)) := by
  obtain ⟨htabled, hne, hnone, rest', hrest, heq⟩ := h
  unfold Alternatives.close
  rw [hnone]
  cases ht : a.table with
  | none =>
      rw [ht] at heq
      simp only [heq]
      exact hrest
  | some table =>
      rw [ht] at heq htabled hne
      exact .table htabled (fun he => hne (congrArg some he)) hrest rfl heq

theorem Spreads.addTerm (h : a.Spreads K a') (ht : term.Spreads K term') :
    (a.addTerm (standard fold) term).Spreads K (a'.addTerm (standard false) term') :=
  ⟨⟨by simp [Alternatives.addTerm], by simp [Alternatives.addTerm]⟩, by simp [Alternatives.addTerm],
    rfl, _, ht.branch .accept h.close, rfl⟩

/-- An alternative that goes into the table is the first of those in turn. -/
theorem Spreads.addKeyed {more : Bool} {key : String} (h : a.Spreads K a') (hterm : term.IsEntry)
    (hkey : K key term) :
    (a.addKeyed (standard fold) more key term).Spreads K (a'.addTerm (standard false) term) := by
  rcases addKeyed_cases fold a more key term with he | ⟨hfree, he⟩
  · rw [he]
    exact h.addTerm hterm.spreads
  · rw [he]
    obtain ⟨htabled, -, hnone, rest', hrest, heq⟩ := h
    refine ⟨⟨fun entry hentry => ?_, ?_⟩, by simp, rfl, rest', hrest, ?_⟩
    · rcases List.mem_cons.mp hentry with rfl | hentry
      · exact ⟨hterm, hkey⟩
      · exact htabled.entries entry hentry
    · refine List.nodup_cons.mpr ⟨fun hmem => ?_, htabled.distinct⟩
      obtain ⟨entry, hentry, hkey⟩ := List.mem_map.mp hmem
      have hnot := List.lookup_eq_none_iff.mp hfree entry hentry
      simp [hkey] at hnot
    · simp only [Alternatives.addTerm, Alternatives.close, hnone, heq]
      rfl

end Alternatives

theorem enumKey?_of_keyOf {t : Grammar} {key : String} (h : (standard fold).keyOf t = some key) :
    enumKey? t = some key := by
  cases fold with
  | false => cases h
  | true => exact h

/-- An alternative with a key is compiled to what may stand in a table, with tables or without. -/
theorem exists_entry_of_enumKey? {t : Grammar} {key : String} (h : enumKey? t = some key) :
    ∃ s : State, s.IsEntry ∧ ∀ fold, (standard fold).compile t = .ok s := by
  cases t with
  | keyword | function | type =>
      refine ⟨_, ?_, fun _ => rfl⟩
      exact trivial
  | _ => cases h

/-- The alternatives of a group, with tables and without. -/
theorem spreads_addAlternatives {terms : List Grammar} {f f' : Grammar → State}
    (h : ∀ t ∈ terms, (f t).Spreads K (f' t))
    (hkey : ∀ t ∈ terms, ∀ key, enumKey? t = some key → (f t).IsEntry ∧ f' t = f t ∧ K key (f t))
    (before : Option Grammar) :
    (addAlternatives (standard fold) before (terms.map fun t => (t, f t))).Spreads K
      (addAlternatives (standard false) before (terms.map fun t => (t, f' t))) := by
  induction terms generalizing before with
  | nil => exact ⟨⟨by simp [addAlternatives], by simp [addAlternatives]⟩, by simp [addAlternatives],
      rfl, .reject, .reject, rfl⟩
  | cons t terms ih =>
      have hrest := ih (fun t ht => h t (List.mem_cons_of_mem _ ht))
        (fun t ht => hkey t (List.mem_cons_of_mem _ ht)) (some t)
      rw [List.map_cons, List.map_cons, addAlternatives, addAlternatives]
      have hnone : (standard false).keyOf t = none := rfl
      simp only [hnone]
      cases hk : (standard fold).keyOf t with
      | none => exact hrest.addTerm (h t List.mem_cons_self)
      | some key =>
          obtain ⟨hentry, hf, hK⟩ := hkey t List.mem_cons_self key (enumKey?_of_keyOf hk)
          simp only [hf]
          exact hrest.addKeyed hentry hK

/-! ## Repetitions -/

section repeated

variable {node : Grammar} {separated : Bool} {term term' next next' : State}

theorem spreads_afterComma (h : next.Spreads K next') :
    (afterComma (standard fold) node separated next).Spreads K
      (afterComma (standard false) node separated next') := by
  unfold afterComma
  rw [h.isAccept_eq]
  split
  · exact State.Spreads.branch .leaf h .reject
  · exact h

theorem spreads_optionally (h : term.Spreads K term') (n : Nat) :
    (optionally (standard fold) node separated term n).Spreads K
      (optionally (standard false) node separated term' n) := by
  induction n with
  | zero => exact .accept
  | succ n ih =>
      exact h.branch (State.Spreads.branch .accept .accept (spreads_afterComma ih)) .reject

theorem spreads_mandatory (h : term.Spreads K term') (hn : next.Spreads K next') (n : Nat) :
    (mandatory (standard fold) node separated term next n).Spreads K
      (mandatory (standard false) node separated term' next' n) := by
  induction n with
  | zero => exact hn
  | succ n ih => exact h.branch (spreads_afterComma ih) .reject

theorem spreads_repeated {min : Int} {max : Option Int} (h : term.Spreads K term') :
    (repeated (standard fold) node min max separated term).Spreads K
      (repeated (standard false) node min max separated term') := by
  have hbody := h.branch .nonEmpty .reject
  unfold repeated
  cases max with
  | none =>
      simp only
      split
      · exact State.Spreads.branch .accept .accept (.loop hbody)
      · exact spreads_mandatory hbody (.loop hbody) _
  | some hi =>
      simp only
      split
      · exact State.Spreads.branch .accept .accept (spreads_optionally h _)
      · exact spreads_mandatory h (spreads_optionally h _) _

end repeated

end Compiler

/-! ## Grammars -/

/-- No type that is looked up by the name of a function is an alternative, and the names of keywords
and functions are ASCII. -/
structure Grammar.Plain (g : Grammar) : Prop where
  types : ∀ terms b n, Grammar.group .one terms b n ∈ g.nodes → ∀ f range,
    Grammar.type (f ++ "()") range ∉ terms
  keywords : ∀ name, Grammar.keyword name ∈ g.nodes → Text.IsAscii name
  functions : ∀ name, Grammar.function name ∈ g.nodes → Text.IsAscii name

theorem Compiler.exists_of_functionTypeName? {name key : String} (h : functionTypeName? name = some key) :
    ∃ f, name = f ++ "()" := by
  unfold functionTypeName? at h
  split at h
  · rename_i r hr
    refine ⟨String.ofList r.reverse, String.toList_inj.mp ?_⟩
    rw [← List.reverse_inj, hr]
    simp
  · cases h

namespace Grammar

/-- What is asked of a single node. -/
def plainNode : Grammar → Bool
  | .group .one terms _ _ => terms.all fun
      | .type name _ => (Compiler.functionTypeName? name).isNone
      | _ => true
  | .keyword name | .function name => decide (Text.IsAscii name)
  | _ => true

theorem plain_iff {g : Grammar} : g.Plain ↔ ∀ node ∈ g.nodes, node.plainNode = true := by
  constructor
  · intro h node hnode
    unfold plainNode
    split
    · rename_i terms b n
      refine List.all_eq_true.mpr fun t ht => ?_
      split
      · rename_i name range
        cases hf : Compiler.functionTypeName? name with
        | none => rfl
        | some key =>
            obtain ⟨f, rfl⟩ := Compiler.exists_of_functionTypeName? hf
            exact absurd ht (h.types terms b n hnode f range)
      · rfl
    · exact decide_eq_true (h.keywords _ hnode)
    · exact decide_eq_true (h.functions _ hnode)
    · rfl
  · intro h
    refine ⟨fun terms b n hnode f range hmem => ?_, fun name hnode => ?_, fun name hnode => ?_⟩
    · have hterm := List.all_eq_true.mp (h _ hnode) _ hmem
      simp [Compiler.functionTypeName?] at hterm
    · exact of_decide_eq_true (h _ hnode)
    · exact of_decide_eq_true (h _ hnode)

instance (g : Grammar) : Decidable g.Plain :=
  @decidable_of_iff _ _ plain_iff.symm (List.decidableBAll (fun node : Grammar => node.plainNode = true) g.nodes)

end Grammar

/-- Both computations fail with the same error, or succeed with related values. -/
inductive Agree {ε α β : Type} (R : α → β → Prop) : Except ε α → Except ε β → Prop where
  | ok {a b} (h : R a b) : Agree R (.ok a) (.ok b)
  | error {e} : Agree R (.error e) (.error e)

namespace Agree

variable {ε α β γ δ : Type} {R : α → β → Prop} {S : γ → δ → Prop} {x : Except ε α} {y : Except ε β}

theorem bind {f : α → Except ε γ} {g : β → Except ε δ} (h : Agree R x y)
    (hf : ∀ a b, x = .ok a → y = .ok b → R a b → Agree S (f a) (g b)) : Agree S (x >>= f) (y >>= g) := by
  cases h with
  | ok h => exact hf _ _ rfl rfl h
  | error => exact .error

theorem imp {R' : α → β → Prop} (h : Agree R x y) (hR : ∀ a b, R a b → R' a b) : Agree R' x y := by
  cases h with
  | ok h => exact .ok (hR _ _ h)
  | error => exact .error

theorem map {f : α → γ} {g : β → δ} (h : Agree R x y) (hf : ∀ a b, R a b → S (f a) (g b)) :
    Agree S (x.map f) (y.map g) := by
  cases h with
  | ok h => exact .ok (hf _ _ h)
  | error => exact .error

theorem mapError {ε' : Type} (f : ε → ε') (h : Agree R x y) : Agree R (x.mapError f) (y.mapError f) := by
  cases h with
  | ok h => exact .ok h
  | error => exact .error

theorem eq_error {e : ε} (h : Agree R x (.error e)) : x = .error e := by
  cases h
  rfl

theorem exists_ok {b : β} (h : Agree R x (.ok b)) : ∃ a, x = .ok a ∧ R a b := by
  cases h with
  | ok h => exact ⟨_, rfl, h⟩

end Agree

/-! ## Grammars with tables and without -/

/-- Every alternative with a key is compiled to a state that may stand under it. -/
def Grammar.Tabulates (K : String → State → Prop) (g : Grammar) : Prop :=
  ∀ terms b n, Grammar.group .one terms b n ∈ g.nodes → ∀ t ∈ terms, ∀ key s,
    Compiler.enumKey? t = some key → (Compiler.standard false).compile t = .ok s → K key s

namespace Grammar

variable {K : String → State → Prop}

theorem Tabulates.term {c : Combinator} {terms : List Grammar} {b n : Bool} {t : Grammar}
    (h : (Grammar.group c terms b n).Tabulates K) (ht : t ∈ terms) : t.Tabulates K :=
  fun terms' b' n' hm => h terms' b' n' (mem_nodes_group ht hm)

theorem Tabulates.repeated {t : Grammar} {min : Int} {max : Option Int} {separated : Bool}
    (h : (Grammar.multiplier t min max separated).Tabulates K) : t.Tabulates K :=
  fun terms b n hm => h terms b n (mem_nodes_multiplier hm)

end Grammar

namespace Compiler

variable {K : String → State → Prop} {fold : Bool}

/-- Terms are compiled by both compilers, or by none, with the same error. -/
theorem agree_compileAll {c c' : Compiler} {R : State → State → Prop} {terms : List Grammar}
    (h : ∀ t ∈ terms, Agree R (c.compile t) (c'.compile t)) :
    Agree (fun _ _ => True) (c.compileAll terms) (c'.compileAll terms) := by
  induction terms with
  | nil =>
      rw [compileAll, compileAll]
      exact .ok trivial
  | cons t terms ih =>
      have hrest := ih fun t ht => h t (List.mem_cons_of_mem _ ht)
      rw [compileAll, compileAll]
      refine (h t List.mem_cons_self).bind fun _ _ _ _ _ => ?_
      exact hrest.bind fun _ _ _ _ _ => .ok trivial

theorem agree_grouped {node : Grammar} {combinator : Combinator} {terms : List Grammar}
    {f f' : Grammar → State} (h : ∀ t ∈ terms, (f t).Spreads K (f' t))
    (hkey : combinator = .one → ∀ t ∈ terms, ∀ key, enumKey? t = some key →
      (f t).IsEntry ∧ f' t = f t ∧ K key (f t)) :
    Agree (State.Spreads K)
      (grouped (standard fold) node combinator (terms.map fun t => (t, f t)))
      (grouped (standard false) node combinator (terms.map fun t => (t, f' t))) := by
  have hstates : List.Forall₂ (State.Spreads K) (terms.map f) (terms.map f') := by
    rw [List.forall₂_map_left_iff, List.forall₂_map_right_iff, List.forall₂_same]
    exact h
  have hmap : ∀ f : Grammar → State, (terms.map fun t => (t, f t)).map (·.2) = terms.map f := by
    simp
  unfold grouped
  simp only [hmap]
  cases combinator with
  | one => exact .ok (spreads_addAlternatives h (hkey rfl) none).close
  | other => exact .error
  | juxtapose =>
      refine .ok ?_
      generalize terms.map f = states, terms.map f' = states' at hstates
      induction hstates with
      | nil => exact .accept
      | cons hterm _ ih => exact hterm.branch ih .reject
  | all | any =>
      generalize terms.map f = states, terms.map f' = states' at hstates
      have hlen := hstates.length_eq
      cases hstates with
      | nil => exact .ok (.once .nil)
      | cons hterm hrest =>
          cases hrest with
          | nil => exact .ok hterm
          | cons hterm' hrest =>
              simp only [hlen]
              split
              · exact .error
              · exact .ok (.once (.cons hterm (.cons hterm' hrest)))

/-- **The states of a grammar with tables are those without, but for the tables**, and a grammar that
cannot be compiled has the same error. The induction is on the grammar. -/
theorem spreads_compile {g : Grammar} (hw : g.WellFormed) (hK : g.Tabulates K) :
    Agree (State.Spreads K) ((standard fold).compile g) ((standard false).compile g) := by
  induction hw with
  | @group combinator terms b n _ _ _ ih =>
      have hall := fun t ht => ih t ht (hK.term ht)
      rw [compile, compile]
      refine (agree_compileAll hall).bind fun pairs pairs' hpairs hpairs' _ => ?_
      obtain ⟨rfl, hok⟩ := compileAll_ok hpairs
      obtain ⟨rfl, hok'⟩ := compileAll_ok hpairs'
      have hstates : ∀ t ∈ terms,
          ((standard fold).stateOf t).Spreads K ((standard false).stateOf t) := by
        intro t ht
        have hagree := hall t ht
        rw [hok t ht, hok' t ht] at hagree
        cases hagree with
        | ok h => exact h
      refine (agree_grouped hstates fun hone t ht key hk => ?_).bind fun state state' _ _ hstate => ?_
      · subst hone
        -- a term with a key is compiled to the same state either way
        obtain ⟨s, hentry, hs⟩ := exists_entry_of_enumKey? hk
        have hf : (standard fold).stateOf t = s := Except.ok.inj ((hok t ht).symm.trans (hs fold))
        have hf' : (standard false).stateOf t = s := Except.ok.inj ((hok' t ht).symm.trans (hs false))
        rw [hf, hf']
        exact ⟨hentry, rfl, hK terms b n (Grammar.self_mem_nodes _) t ht key s hk (hs false)⟩
      · cases n with
        | false => exact .ok hstate
        | true => exact .ok (hstate.branch .nonEmpty .reject)
  | multiplier _ _ _ ih =>
      rw [compile, compile]
      exact (ih hK.repeated).bind fun _ _ _ _ hs => .ok (spreads_repeated hs)
  | type | property =>
      rw [compile, compile]
      exact .ok .call
  | _ =>
      rw [compile, compile]
      exact .ok .leaf

end Compiler

/-! ## Tables of leaves -/

/-- The state is a leaf that takes no tokens but those found under the key. -/
def LeafUnder (ts : List Token) (key : String) (s : State) : Prop :=
  ∃ l node, s = .leaf l node ∧ l.Keyed ts key

/-- The second state is the first one with the leaves of its tables in turn. -/
abbrev State.Unfolds (ts : List Token) : State → State → Prop := State.Spreads (LeafUnder ts)

namespace Grammar

theorem WellFormed.of_mem_nodes {g node : Grammar} (h : g.WellFormed) (hn : node ∈ g.nodes) :
    node.WellFormed := by
  induction h with
  | @group c terms b n hc hne hterms ih =>
      rw [nodes_group, List.mem_cons, List.mem_flatMap] at hn
      rcases hn with rfl | ⟨t, ht, hn⟩
      · exact .group hc hne hterms
      · exact ih t ht hn
  | @multiplier t min max separated hmin hmax ht ih =>
      rw [nodes_multiplier, List.mem_cons] at hn
      rcases hn with rfl | hn
      · exact .multiplier hmin hmax ht
      · exact ih hn
  | function h => rw [List.mem_singleton.mp hn]; exact .function h
  | _ => rw [List.mem_singleton.mp hn]; constructor

/-- The nodes of a node are nodes of the grammar. -/
theorem mem_nodes_trans {g node x : Grammar} (hn : node ∈ g.nodes) (hx : x ∈ node.nodes) :
    x ∈ g.nodes := by
  induction g using nodeInduction with
  | group c terms b n ih =>
      rw [nodes_group, List.mem_cons, List.mem_flatMap] at hn
      rcases hn with rfl | ⟨t, ht, hn⟩
      · exact hx
      · exact mem_nodes_group ht (ih t ht hn)
  | multiplier t min max separated ih =>
      rw [nodes_multiplier, List.mem_cons] at hn
      rcases hn with rfl | hn
      · exact hx
      · exact mem_nodes_multiplier (ih hn)
  | leaf g hgroup hmultiplier =>
      cases g with
      | group => exact absurd rfl (hgroup _ _ _ _)
      | multiplier => exact absurd rfl (hmultiplier _ _ _ _)
      | _ => rw [List.mem_singleton.mp hn] at hx; exact hx

/-- A keyword or a function is compiled to a leaf that is found under its key. -/
theorem WellFormed.leafUnder {ts : List Token} {t : Grammar} {key : String} {s : State}
    (hw : t.WellFormed) (hts : ∀ u ∈ ts, Text.IsAscii u.value)
    (hname : ∀ name, t = .keyword name ∨ t = .function name → Text.IsAscii name)
    (htype : ∀ name range, t ≠ .type name range) (hk : Compiler.enumKey? t = some key)
    (hs : (Compiler.standard false).compile t = .ok s) : LeafUnder ts key s := by
  cases t with
  | keyword name =>
      cases hk
      cases hs
      exact ⟨_, _, rfl, keyed_keyword hts (hname name (.inl rfl))⟩
  | function name =>
      cases hk
      cases hs
      cases hw with
      | function hchars => exact ⟨_, _, rfl, keyed_function hts (hname name (.inr rfl)) hchars⟩
  | type name range => exact absurd rfl (htype name range)
  | _ => cases hk

/-- Alternatives of a plain grammar with a key are compiled to leaves that are found under it. -/
theorem Plain.tabulates {ts : List Token} {g : Grammar} (hts : ∀ t ∈ ts, Text.IsAscii t.value)
    (hw : g.WellFormed) (hp : g.Plain) : g.Tabulates (LeafUnder ts) := by
  intro terms b n hnode t ht key s hk hs
  have hmem : t ∈ g.nodes := mem_nodes_trans hnode (mem_nodes_group ht (self_mem_nodes t))
  refine (hw.of_mem_nodes hmem).leafUnder hts ?_ ?_ hk hs
  · rintro name (rfl | rfl)
    · exact hp.keywords name hmem
    · exact hp.functions name hmem
  · rintro name range rfl
    obtain ⟨fname, hf, -⟩ := Option.map_eq_some_iff.mp hk
    obtain ⟨f, rfl⟩ := Compiler.exists_of_functionTypeName? hf
    exact hp.types terms b n hnode f range ht

end Grammar

/-- The states of a plain grammar with tables are those without, but for the tables. -/
theorem Compiler.unfolds_compile {ts : List Token} {fold : Bool} {g : Grammar}
    (hts : ∀ t ∈ ts, Text.IsAscii t.value) (hw : g.WellFormed) (hp : g.Plain) :
    Agree (State.Unfolds ts) ((standard fold).compile g) ((standard false).compile g) :=
  spreads_compile hw (hp.tabulates hts hw)

end ValueGrammar

import ValueGrammar.Proofs.Alternatives
import ValueGrammar.Proofs.AnyOrder
import ValueGrammar.Proofs.Derivation
import ValueGrammar.Proofs.WellFormed

/-!
# `ValueGrammar.Proofs.Compilation` — a compiled grammar matches the values of the grammar

The states a well-formed grammar is compiled to match only values of the grammar, and they match
all of them if every alternative that was folded into a table is found there.

## Contents
- `accepts_keyword_iff`, …: one leaf each.
- `joined_spread_mono`: repetitions of states against repetitions of grammars.
- `Grammar.Findable`: a value of an alternative in a table starts with its key.
- `Compiler.stateOf`, `Compiler.Faithful`: the state of a grammar, and what is said about it.
- `Compiler.faithful_compile`: every well-formed grammar is compiled faithfully.
-/

namespace ValueGrammar

variable {env : Reference → Option Meaning} {calls : Calls} {ts : List Token} {o : Option Range}
  {i j : Nat} {node : Grammar}

/-! ## Leaves -/

theorem drop_eq_cons_iff {t : Token} {rest : List Token} :
    ts.drop i = t :: rest ↔ ts[i]? = some t ∧ ts.drop (i + 1) = rest := by
  constructor
  · intro h
    have hget : ts[i]? = some t := by rw [← List.head?_drop, h, List.head?_cons]
    exact ⟨hget, by rw [← List.tail_drop, h, List.tail_cons]⟩
  · rintro ⟨hget, rfl⟩
    obtain ⟨hlt, rfl⟩ := List.getElem?_eq_some_iff.mp hget
    exact List.drop_eq_getElem_cons hlt

theorem drop_eq_nil_iff_getElem? : ts.drop i = [] ↔ ts[i]? = none := by
  rw [← List.head?_drop, List.head?_eq_none_iff]

theorem takeOne_drop_iff {p : Token → Bool} {n : Nat} :
    Leaf.takeOne p (ts.drop i) = (n, true) ↔ (∃ t, ts[i]? = some t ∧ p t = true) ∧ n = 1 := by
  cases hd : ts.drop i with
  | nil =>
      have hnone := drop_eq_nil_iff_getElem?.mp hd
      simp [Leaf.takeOne, hnone]
  | cons t rest =>
      have hget := (drop_eq_cons_iff.mp hd).1
      simp only [Leaf.takeOne, hget, Option.some.injEq, exists_eq_left']
      cases p t <;> simp [eq_comm]

/-- A leaf that takes one token. -/
theorem accepts_takeOne_iff {l : Leaf} {p : Token → Bool}
    (h : ∀ last range ahead, l.take last range ahead = Leaf.takeOne p ahead) :
    Accepts calls ts (.state (.leaf l node)) o i j ↔
      (∃ t, ts[i]? = some t ∧ p t = true) ∧ j = i + 1 := by
  rw [accepts_leaf_iff]
  simp only [h, takeOne_drop_iff]
  constructor
  · rintro ⟨n, ⟨ht, rfl⟩, rfl⟩; exact ⟨ht, rfl⟩
  · rintro ⟨ht, rfl⟩; exact ⟨1, ⟨ht, rfl⟩, rfl⟩

theorem accepts_keyword_iff {name : String} :
    Accepts calls ts (.state (.leaf (.keyword (Text.lower name)) node)) o i j ↔
      Derives env ts (.keyword name) o i j := by
  rw [accepts_takeOne_iff fun _ _ _ => rfl]
  constructor
  · rintro ⟨⟨t, ht, hp⟩, rfl⟩; exact .keyword ht hp
  · intro h; cases h with | keyword ht hp => exact ⟨⟨_, ht, hp⟩, rfl⟩

theorem accepts_atKeyword_iff {name : String} :
    Accepts calls ts (.state (.leaf (.atKeyword ("@" ++ Text.lower name)) node)) o i j ↔
      Derives env ts (.atKeyword name) o i j := by
  rw [accepts_takeOne_iff fun _ _ _ => rfl]
  constructor
  · rintro ⟨⟨t, ht, hp⟩, rfl⟩; exact .atKeyword ht hp
  · intro h; cases h with | atKeyword ht hp => exact ⟨⟨_, ht, hp⟩, rfl⟩

theorem accepts_function_iff {name : String} :
    Accepts calls ts (.state (.leaf (.function (Text.lower name ++ "(")) node)) o i j ↔
      Derives env ts (.function name) o i j := by
  rw [accepts_takeOne_iff fun _ _ _ => rfl]
  constructor
  · rintro ⟨⟨t, ht, hp⟩, rfl⟩; exact .function ht hp
  · intro h; cases h with | function ht hp => exact ⟨⟨_, ht, hp⟩, rfl⟩

theorem accepts_token_iff {value : String} :
    Accepts calls ts (.state (.leaf (.token value) node)) o i j ↔
      Derives env ts (.token value) o i j := by
  rw [accepts_takeOne_iff fun _ _ _ => rfl]
  constructor
  · rintro ⟨⟨t, ht, hp⟩, rfl⟩; exact .token ht (by simpa using hp)
  · intro h; cases h with | token ht hp => exact ⟨⟨_, ht, by simpa using hp⟩, rfl⟩

/-- A literal with one character between the quotes is compared as a token, and any other with the
tokens that together spell it. -/
theorem accepts_string_iff {value : String} :
    Accepts calls ts (.state (.leaf (Compiler.stringLeaf value) node)) o i j ↔
      Derives env ts (.string value) o i j := by
  unfold Compiler.stringLeaf
  split
  · -- two quotes and a character between them
    rename_i q c q' hv
    have hlen : value.length = 3 := by rw [← String.length_toList, hv]; rfl
    rw [accepts_takeOne_iff fun _ _ _ => rfl]
    constructor
    · rintro ⟨⟨t, ht, hp⟩, rfl⟩; exact .character hv ht (by simpa using hp)
    · intro h
      cases h with
      | character hv' ht hp =>
          rw [hv] at hv'
          cases hv'
          exact ⟨⟨_, ht, by simpa using hp⟩, rfl⟩
      | string hne _ _ => exact absurd hlen hne
  · rename_i hv
    have hlen : value.length ≠ 3 := by
      intro h
      rw [← String.length_toList] at h
      obtain ⟨a, b, c, habc⟩ := List.length_eq_three.mp h
      exact hv a b c habc
    rw [accepts_leaf_iff]
    simp only [Leaf.take]
    constructor
    · rintro ⟨n, h, rfl⟩
      split at h
      · rename_i hfold
        cases h
        exact .string hlen rfl hfold
      · cases h
    · intro h
      cases h with
      | character hv' _ _ => exact absurd hv' (hv _ _ _)
      | string _ hn hfold =>
          subst hn
          exact ⟨_, if_pos hfold, rfl⟩

/-- What a leaf for a comma takes is a value of the grammar of a comma. -/
theorem derives_comma_of_take {n : Nat}
    (h : Leaf.takeComma (tokenBefore ts i) (ts.drop i) = (n, true)) :
    Derives env ts .comma o i (i + n) := by
  unfold Leaf.takeComma at h
  split at h
  · rename_i t rest hd
    obtain ⟨hget, hrest⟩ := drop_eq_cons_iff.mp hd
    split at h
    · -- the token ahead is a comma: there must be something to separate on both sides
      rename_i hk
      split at h
      · cases h
      · rename_i hs
        simp only [Prod.mk.injEq, Bool.not_eq_true'] at h
        obtain ⟨rfl, he⟩ := h
        rw [← hrest, List.head?_drop] at he
        exact .comma hget (by simpa using hk) (by simpa using hs) he
    · -- another token is ahead: the comma may be left out next to a boundary
      rename_i hk
      simp only [Prod.mk.injEq, Bool.or_eq_true] at h
      obtain ⟨rfl, hse⟩ := h
      refine .noComma (fun t' ht' => ?_) (hget ▸ hse)
      rw [hget] at ht'
      cases ht'
      simpa using hk
  · -- the end of the tokens is a boundary
    rename_i hd
    simp only [Prod.mk.injEq, and_true] at h
    subst h
    have hnone := drop_eq_nil_iff_getElem?.mp hd
    exact .noComma (by simp [hnone]) (.inr (by rw [hnone]; rfl))

theorem accepts_comma_iff :
    Accepts calls ts (.state (.leaf .comma node)) o i j ↔ Derives env ts .comma o i j := by
  rw [accepts_leaf_iff]
  simp only [Leaf.take]
  constructor
  · rintro ⟨n, h, rfl⟩
    exact derives_comma_of_take h
  · intro h
    cases h with
    | comma ht hk hs he =>
        refine ⟨1, ?_, rfl⟩
        rw [drop_eq_cons_iff.mpr ⟨ht, rfl⟩]
        simp [Leaf.takeComma, hk, hs, List.head?_drop, he]
    | noComma hk hse =>
        refine ⟨0, ?_, rfl⟩
        cases hd : ts.drop i with
        | nil => rfl
        | cons t rest =>
            obtain ⟨hget, -⟩ := drop_eq_cons_iff.mp hd
            have hkind := hk t hget
            rw [hget] at hse
            simp only [Leaf.takeComma, beq_iff_eq, hkind, if_false, Prod.mk.injEq, true_and]
            simpa using hse

/-! ## Repetitions -/

/-- Repetitions in a row are matches of another row of as many repetitions, if their members and
separators are. -/
theorem joined_spread_mono {α β : Type} {P : α → Nat → Nat → Prop} {Q : β → Nat → Nat → Prop}
    {sep : Option α} {sep' : Option β} {x : α} {y : β} {k : Nat}
    (h : Joined P (spread sep x k) i j) (hx : ∀ i j, P x i j → Q y i j)
    (hsep : ∀ i j, Between P sep i j → Between Q sep' i j) : Joined Q (spread sep' y k) i j := by
  induction k using spread.induct generalizing i with
  | case1 => exact h
  | case2 =>
      rw [joined_spread_one] at h ⊢
      exact hx i j h
  | case3 k ih =>
      obtain ⟨a, hxa, b, hb, hr⟩ := joined_spread_succ.mp h
      exact joined_spread_succ.mpr ⟨a, hx i a hxa, b, hsep a b hb, ih hr⟩

/-- What stands between two repetitions is a value of the grammar of a comma, or nothing. -/
theorem between_comma_iff {separated : Bool} :
    Between (Matches calls ts o) (commaOf (Compiler.separator node separated)) i j ↔
      Between (fun t => Derives env ts t o) (Grammar.separator separated) i j := by
  cases separated with
  | false => simp [Grammar.separator]
  | true => simpa [Grammar.separator] using accepts_comma_iff

/-! ## Nodes -/

namespace Grammar

theorem mem_nodes_group {c : Combinator} {terms : List Grammar} {b n : Bool} {t x : Grammar}
    (ht : t ∈ terms) (hx : x ∈ t.nodes) : x ∈ (Grammar.group c terms b n).nodes := by
  simp only [nodes, inspect, if_true, inspectAll_eq_flatMap, List.mem_cons, List.mem_flatMap]
  exact .inr ⟨t, ht, hx⟩

theorem mem_nodes_multiplier {t x : Grammar} {min : Int} {max : Option Int} {separated : Bool}
    (hx : x ∈ t.nodes) : x ∈ (Grammar.multiplier t min max separated).nodes := by
  simp only [nodes, inspect, if_true, List.mem_cons]
  exact .inr hx

theorem self_mem_nodes (g : Grammar) : g ∈ g.nodes := by
  cases g <;> simp [nodes, inspect]

/-- Every value of an alternative that stands in a table starts with a token that is found under its
key there. -/
def Findable (env : Reference → Option Meaning) (ts : List Token) (g : Grammar) : Prop :=
  ∀ terms b n, Grammar.group .one terms b n ∈ g.nodes →
    ∀ key t, (key, t) ∈ Compiler.tabled none terms →
      ∀ o i j, Derives env ts t o i j → KeyAt ts i key

theorem Findable.term {c : Combinator} {terms : List Grammar} {b n : Bool} {t : Grammar}
    (h : (Grammar.group c terms b n).Findable env ts) (ht : t ∈ terms) : t.Findable env ts :=
  fun terms' b' n' hm => h terms' b' n' (mem_nodes_group ht hm)

theorem Findable.of_nonEmpty {c : Combinator} {terms : List Grammar} {b : Bool}
    (h : (Grammar.group c terms b true).Findable env ts) :
    (Grammar.group c terms b false).Findable env ts := by
  intro terms' b' n' hm
  simp only [nodes, inspect, if_true, List.mem_cons] at hm
  rcases hm with he | hm
  · cases he
    exact h terms b true (self_mem_nodes _)
  · refine h terms' b' n' ?_
    simp only [nodes, inspect, if_true, List.mem_cons]
    exact .inr hm

theorem Findable.repeated {t : Grammar} {min : Int} {max : Option Int} {separated : Bool}
    (h : (Grammar.multiplier t min max separated).Findable env ts) : t.Findable env ts :=
  fun terms b n hm => h terms b n (mem_nodes_multiplier hm)

end Grammar

/-! ## Compiled grammars -/

namespace Compiler

/-- The state a grammar is compiled to, if it can be compiled. -/
def stateOf (c : Compiler) (g : Grammar) : State :=
  match c.compile g with
  | .ok s => s
  | .error _ => .reject

theorem stateOf_eq {c : Compiler} {g : Grammar} {s : State} (h : c.compile g = .ok s) :
    c.stateOf g = s := by rw [stateOf, h]

theorem compileAll_ok {c : Compiler} {terms : List Grammar} {pairs : List (Grammar × State)}
    (h : c.compileAll terms = .ok pairs) :
    pairs = terms.map (fun t => (t, c.stateOf t)) ∧ ∀ t ∈ terms, c.compile t = .ok (c.stateOf t) := by
  induction terms generalizing pairs with
  | nil =>
      rw [compileAll] at h
      cases h
      exact ⟨rfl, by simp⟩
  | cons t terms ih =>
      rw [compileAll] at h
      cases ht : c.compile t with
      | error e => rw [ht] at h; cases h
      | ok s =>
          cases hts : c.compileAll terms with
          | error e => rw [ht, hts] at h; cases h
          | ok rest =>
              rw [ht, hts] at h
              cases h
              obtain ⟨hrest, hall⟩ := ih hts
              refine ⟨by rw [hrest, List.map_cons, stateOf_eq ht], fun u hu => ?_⟩
              rcases List.mem_cons.mp hu with rfl | hu
              · rw [ht, stateOf_eq ht]
              · exact hall u hu

theorem compile_group_ok {c : Compiler} {combinator : Combinator} {terms : List Grammar}
    {b n : Bool} {s : State} (h : c.compile (.group combinator terms b n) = .ok s) :
    (∀ t ∈ terms, c.compile t = .ok (c.stateOf t)) ∧
      ∃ state, grouped c (.group combinator terms b n) combinator
          (terms.map fun t => (t, c.stateOf t)) = .ok state ∧
        s = if n then c.branch state .nonEmpty .reject else state := by
  rw [compile] at h
  cases hts : c.compileAll terms with
  | error e => rw [hts] at h; cases h
  | ok pairs =>
      obtain ⟨hpairs, hall⟩ := compileAll_ok hts
      rw [hts] at h
      refine ⟨hall, ?_⟩
      rw [← hpairs]
      cases hg : grouped c (.group combinator terms b n) combinator pairs with
      | error e =>
          simp only [bind, Except.bind, hg] at h
          cases h
      | ok state =>
          simp only [bind, Except.bind, hg] at h
          cases h
          exact ⟨state, rfl, rfl⟩

theorem compile_multiplier_ok {c : Compiler} {t : Grammar} {min : Int} {max : Option Int}
    {separated : Bool} {s : State} (h : c.compile (.multiplier t min max separated) = .ok s) :
    c.compile t = .ok (c.stateOf t) ∧
      s = repeated c (.multiplier t min max separated) min max separated (c.stateOf t) := by
  rw [compile] at h
  cases ht : c.compile t with
  | error e => rw [ht] at h; cases h
  | ok s' =>
      rw [ht] at h
      cases h
      rw [stateOf_eq ht]
      exact ⟨rfl, rfl⟩

/-- A group in any order is its only term, or a state that counts its terms. -/
theorem grouped_inAnyOrder_ok {c : Compiler} {combinator : Combinator} {all : Bool} {xs : List Grammar}
    {f : Grammar → State} {state : State}
    (hc : combinator = .all ∧ all = true ∨ combinator = .any ∧ all = false)
    (h : grouped c node combinator (xs.map fun t => (t, f t)) = .ok state) :
    (∃ t, xs = [t] ∧ state = f t) ∨ (xs.length ≤ 64 ∧ state = .once (xs.map f) all node) := by
  have hmap : (xs.map fun t => (t, f t)).map (·.2) = xs.map f := by simp
  rcases hc with ⟨rfl, rfl⟩ | ⟨rfl, rfl⟩
  all_goals
    simp only [grouped, hmap] at h
    split at h
    · rename_i term hs
      obtain ⟨t, rfl, rfl⟩ := List.map_eq_singleton_iff.mp hs
      cases h
      exact .inl ⟨t, rfl, rfl⟩
    · split at h
      · cases h
      · rename_i hlen
        cases h
        rw [List.length_map, maxOnceTerms, Nat.not_lt] at hlen
        exact .inr ⟨hlen, rfl⟩

/-- What is said about the state of a grammar: it looks at tokens, it matches only values of the
grammar, and it matches all of them unless a table does not find one. -/
structure Faithful (env : Reference → Option Meaning) (ts : List Token) (fold : Bool) (g : Grammar)
    (s : State) : Prop where
  proper : ¬ s.IsSentinel
  sound : ∀ o i j, Accepts (Derives.calls env ts) ts (.state s) o i j → Derives env ts g o i j
  complete : (fold = true → g.Findable env ts) →
    ∀ o i j, Derives env ts g o i j → Accepts (Derives.calls env ts) ts (.state s) o i j

/-- A state that matches exactly the values of a grammar. -/
theorem Faithful.of_iff {fold : Bool} {g : Grammar} {s : State} (hp : ¬ s.IsSentinel)
    (h : ∀ o i j, Accepts (Derives.calls env ts) ts (.state s) o i j ↔ Derives env ts g o i j) :
    Faithful env ts fold g s :=
  ⟨hp, fun o i j => (h o i j).mp, fun _ o i j => (h o i j).mpr⟩

variable {fold : Bool} {terms : List Grammar} {f : Grammar → State} {b n : Bool}

/-! ### Groups -/

/-- What the terms of a group match in a row are values in a row, and the other way round. -/
theorem Faithful.joined {order : List Grammar} (h : ∀ t ∈ order, Faithful env ts fold t (f t))
    (hj : Joined (fun t => Matches (Derives.calls env ts) ts o (f t)) order i j) :
    Joined (fun t => Derives env ts t o) order i j :=
  hj.mono fun t ht i j => (h t ht).sound o i j

theorem Faithful.joined_complete {order : List Grammar}
    (h : ∀ t ∈ order, Faithful env ts fold t (f t))
    (hc : ∀ t ∈ order, fold = true → t.Findable env ts)
    (hj : Joined (fun t => Derives env ts t o) order i j) :
    Joined (fun t => Matches (Derives.calls env ts) ts o (f t)) order i j :=
  hj.mono fun t ht i j => (h t ht).complete (hc t ht) o i j

section group

variable (hts : ∀ t ∈ terms, Faithful env ts fold t (f t))

include hts

theorem faithful_row (hne : terms ≠ []) :
    Faithful env ts fold (.group .juxtapose terms b false)
      ((terms.map f).foldr (fun s rest => State.branch s rest .reject) .accept) := by
  have hproper : ∀ s ∈ terms.map f, ¬ s.IsSentinel := by
    intro s hs
    obtain ⟨t, ht, rfl⟩ := List.mem_map.mp hs
    exact (hts t ht).proper
  refine ⟨?_, fun o i j h => ?_, fun hc o i j h => ?_⟩
  · cases terms with
    | nil => exact absurd rfl hne
    | cons t rest => exact State.branch_not_isSentinel (hts t List.mem_cons_self).proper
  · rw [accepts_row_iff hproper, Joined.map_iff] at h
    exact derives_row_iff.mpr (Faithful.joined hts h)
  · rw [accepts_row_iff hproper, Joined.map_iff]
    exact Faithful.joined_complete hts (fun t ht hf => (hc hf).term ht) (derives_row_iff.mp h)

theorem faithful_alternatives (hne : terms ≠ []) :
    Faithful env ts fold (.group .one terms b false)
      ((standard fold).alternatives (terms.map fun t => (t, f t))) := by
  refine ⟨alternatives_not_isSentinel (by simpa using hne) ?_, fun o i j h => ?_,
    fun hc o i j h => ?_⟩
  · intro p hp
    obtain ⟨t, ht, rfl⟩ := List.mem_map.mp hp
    exact (hts t ht).proper
  · obtain ⟨p, hp, h⟩ := exists_of_accepts_alternatives h
    obtain ⟨t, ht, rfl⟩ := List.mem_map.mp hp
    exact .one ht ((hts t ht).sound o i j h)
  · obtain ⟨t, ht, hd⟩ := derives_one_iff.mp h
    refine accepts_alternatives (List.mem_map.mpr ⟨t, ht, rfl⟩) (fun hf key hk => ?_)
      ((hts t ht).complete (fun hf => (hc hf).term ht) o i j hd)
    rw [List.map_map] at hk
    change (key, t) ∈ tabled none (terms.map id) at hk
    rw [List.map_id] at hk
    exact hc hf terms b false (Grammar.self_mem_nodes _) key t hk o i j hd

theorem faithful_all (hne : terms ≠ []) {state : State}
    (h : grouped (standard fold) node .all (terms.map fun t => (t, f t)) = .ok state) :
    Faithful env ts fold (.group .all terms b false) state := by
  rcases grouped_inAnyOrder_ok (.inl ⟨rfl, rfl⟩) h with ⟨t, rfl, rfl⟩ | ⟨hlen, rfl⟩
  · have ht := hts t List.mem_cons_self
    refine ⟨ht.proper, fun o i j h => ?_, fun hc o i j h => ?_⟩
    · exact .all (.refl _) (derives_row_iff.mpr ⟨j, ht.sound o i j h, rfl⟩)
    · obtain ⟨order, hp, hj⟩ := derives_all_iff.mp h
      obtain rfl := List.perm_singleton.mp hp
      obtain ⟨k, hd, rfl⟩ := hj
      exact ht.complete (fun hf => (hc hf).term List.mem_cons_self) o i k hd
  · refine ⟨id, fun o i j h => ?_, fun hc o i j h => ?_⟩
    · obtain ⟨order, hp, hj⟩ := (accepts_once_all_iff hne hlen).mp h
      exact derives_all_iff.mpr
        ⟨order, hp, Faithful.joined (fun t ht => hts t (hp.mem_iff.mp ht)) hj⟩
    · obtain ⟨order, hp, hj⟩ := derives_all_iff.mp h
      exact (accepts_once_all_iff hne hlen).mpr ⟨order, hp, Faithful.joined_complete
        (fun t ht => hts t (hp.mem_iff.mp ht)) (fun t ht hf => (hc hf).term (hp.mem_iff.mp ht)) hj⟩

theorem faithful_any (hne : terms ≠ []) {state : State}
    (h : grouped (standard fold) node .any (terms.map fun t => (t, f t)) = .ok state) :
    Faithful env ts fold (.group .any terms b false) state := by
  rcases grouped_inAnyOrder_ok (.inr ⟨rfl, rfl⟩) h with ⟨t, rfl, rfl⟩ | ⟨hlen, rfl⟩
  · have ht := hts t List.mem_cons_self
    refine ⟨ht.proper, fun o i j h => ?_, fun hc o i j h => ?_⟩
    · exact .any (List.Subperm.refl _) (by simp)
        (derives_row_iff.mpr ⟨j, ht.sound o i j h, rfl⟩)
    · obtain ⟨order, hp, hne', hj⟩ := derives_any_iff.mp h
      obtain rfl := (List.subperm_singleton_iff.mp hp).resolve_left hne'
      obtain ⟨k, hd, rfl⟩ := hj
      exact ht.complete (fun hf => (hc hf).term List.mem_cons_self) o i k hd
  · refine ⟨id, fun o i j h => ?_, fun hc o i j h => ?_⟩
    · obtain ⟨order, hp, hne', hj⟩ := (accepts_once_any_iff hne hlen).mp h
      exact derives_any_iff.mpr
        ⟨order, hp, hne', Faithful.joined (fun t ht => hts t (hp.subset ht)) hj⟩
    · obtain ⟨order, hp, hne', hj⟩ := derives_any_iff.mp h
      exact (accepts_once_any_iff hne hlen).mpr ⟨order, hp, hne', Faithful.joined_complete
        (fun t ht => hts t (hp.subset ht)) (fun t ht hf => (hc hf).term (hp.subset ht)) hj⟩

theorem faithful_grouped (hne : terms ≠ []) {combinator : Combinator} {state : State}
    (h : grouped (standard fold) node combinator (terms.map fun t => (t, f t)) = .ok state) :
    Faithful env ts fold (.group combinator terms b false) state := by
  cases combinator with
  | juxtapose =>
      have hs : state = (terms.map f).foldr (fun s rest => State.branch s rest .reject) .accept := by
        simp only [grouped, List.map_map] at h
        cases h
        rfl
      rw [hs]
      exact faithful_row hts hne
  | one =>
      cases h
      exact faithful_alternatives hts hne
  | all => exact faithful_all hts hne h
  | any => exact faithful_any hts hne h
  | other code => cases h

end group

/-! ### Multipliers -/

theorem faithful_bounded {t : Grammar} {s : State} {min hi : Int} {separated : Bool}
    (ht : Faithful env ts fold t s) (hmin : 0 ≤ min) (hmax : max min 1 ≤ hi) :
    Faithful env ts fold (.multiplier t min (some hi) separated)
      (repeated (standard fold) node min (some hi) separated s) := by
  refine ⟨repeated_not_isSentinel ht.proper fun _ he => by cases he; exact hmax,
    fun o i j h => ?_, fun hc o i j h => ?_⟩
  · obtain ⟨k, hlo, hhi, hj⟩ := (accepts_bounded_iff ht.proper hmin hmax).mp h
    exact derives_bounded_iff.mpr ⟨k, hlo, hhi, joined_spread_mono hj (fun i j => ht.sound o i j)
      (fun i j => between_comma_iff.mp)⟩
  · obtain ⟨k, hlo, hhi, hj⟩ := derives_bounded_iff.mp h
    exact (accepts_bounded_iff ht.proper hmin hmax).mpr ⟨k, hlo, hhi, joined_spread_mono hj
      (fun i j => ht.complete (fun hf => (hc hf).repeated) o i j)
      (fun i j => between_comma_iff.mpr)⟩

theorem faithful_unbounded {t : Grammar} {s : State} {min : Int} {separated : Bool}
    (ht : Faithful env ts fold t s) (hmin : 0 ≤ min) :
    Faithful env ts fold (.multiplier t min none separated)
      (repeated (standard fold) node min none separated s) := by
  refine ⟨repeated_not_isSentinel ht.proper fun _ he => by (cases he),
    fun o i j h => ?_, fun hc o i j h => ?_⟩
  · rcases (accepts_unbounded_iff ht.proper hmin).mp h with h | ⟨k, hk, hj⟩
    · exact derives_unbounded_iff.mpr (.inl h)
    · refine derives_unbounded_iff.mpr (.inr ⟨k, hk, joined_spread_mono hj (fun i j hs => ?_)
        (fun i j => between_comma_iff.mp)⟩)
      obtain ⟨hs, hlt⟩ := accepts_nonEmpty_iff.mp hs
      exact derives_someOf_iff.mpr ⟨ht.sound o i j hs, hlt⟩
  · rcases derives_unbounded_iff.mp h with h | ⟨k, hk, hj⟩
    · exact (accepts_unbounded_iff ht.proper hmin).mpr (.inl h)
    · refine (accepts_unbounded_iff ht.proper hmin).mpr (.inr ⟨k, hk, joined_spread_mono hj
        (fun i j hd => ?_) (fun i j => between_comma_iff.mpr)⟩)
      obtain ⟨hd, hlt⟩ := derives_someOf_iff.mp hd
      exact accepts_nonEmpty_iff.mpr ⟨ht.complete (fun hf => (hc hf).repeated) o i j hd, hlt⟩

/-! ### All grammars -/

/-- A group that must not match nothing. -/
theorem Faithful.nonEmpty {combinator : Combinator} {state : State}
    (h : Faithful env ts fold (.group combinator terms b false) state) :
    Faithful env ts fold (.group combinator terms b true)
      (State.branch state .nonEmpty .reject) := by
  refine ⟨State.branch_not_isSentinel h.proper, fun o i j ha => ?_, fun hc o i j hd => ?_⟩
  · obtain ⟨hs, hlt⟩ := accepts_nonEmpty_iff.mp ha
    exact .nonEmpty hlt (h.sound o i j hs)
  · obtain ⟨hs, hlt⟩ := derives_nonEmpty_iff.mp hd
    refine accepts_nonEmpty_iff.mpr ⟨h.complete (fun hf => ?_) o i j hs, hlt⟩
    exact (hc hf).of_nonEmpty

theorem faithful_call {r : Reference} {range : Option Range} {g : Grammar}
    (h : ∀ o i j, Derives env ts g o i j ↔ Derives.calls env ts r (range <|> o) i j) :
    Faithful env ts fold g (.call r range node) := by
  refine Faithful.of_iff id fun o i j => ?_
  rw [h o i j]
  constructor
  · intro ha; cases ha with | call ha => exact ha
  · exact .call

/-- **A compiled grammar matches the values of the grammar**, whatever references stand for. The
induction is on the grammar. -/
theorem faithful_compile {g : Grammar} (hg : g.WellFormed) :
    ∀ {s : State}, (standard fold).compile g = .ok s → Faithful env ts fold g s := by
  induction hg with
  | @group combinator terms b n _ hne _ ih =>
      intro s hs
      obtain ⟨hall, state, hstate, rfl⟩ := compile_group_ok hs
      have hts : ∀ t ∈ terms, Faithful env ts fold t ((standard fold).stateOf t) :=
        fun t ht => ih t ht (hall t ht)
      have hgroup : Faithful env ts fold (.group combinator terms b false) state :=
        faithful_grouped hts hne hstate
      cases n with
      | false => exact hgroup
      | true => exact hgroup.nonEmpty
  | @multiplier t min max separated hmin hmax _ ih =>
      intro s hs
      obtain ⟨ht, rfl⟩ := compile_multiplier_ok hs
      cases max with
      | none => exact faithful_unbounded (ih ht) hmin
      | some hi => exact faithful_bounded (ih ht) hmin (hmax hi rfl)
  | keyword => intro s hs; cases hs; exact .of_iff id fun _ _ _ => accepts_keyword_iff
  | atKeyword => intro s hs; cases hs; exact .of_iff id fun _ _ _ => accepts_atKeyword_iff
  | function => intro s hs; cases hs; exact .of_iff id fun _ _ _ => accepts_function_iff
  | token => intro s hs; cases hs; exact .of_iff id fun _ _ _ => accepts_token_iff
  | string => intro s hs; cases hs; exact .of_iff id fun _ _ _ => accepts_string_iff
  | comma => intro s hs; cases hs; exact .of_iff id fun _ _ _ => accepts_comma_iff
  | type => intro s hs; cases hs; exact faithful_call fun _ _ _ => derives_type_iff
  | property =>
      intro s hs
      cases hs
      refine faithful_call fun o i j => ?_
      simp [Derives.calls, Reference.node]

end Compiler

end ValueGrammar

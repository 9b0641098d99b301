import ValueGrammar.Proofs.Folding

/-!
# `ValueGrammar.Proofs.Folding.Opening` — grammars that open with a function

A type may be looked up in a table by the name of a function, on the understanding that its values
start with this function. A grammar keeps to that if whatever it looks at first is the function. Then
it fails in place at any other token, and nothing is lost if the table leaves it alone.

## Contents
- `Grammar.Opens`: everything the grammar looks at first is the function.
- `State.Dies.build`, `State.Dies.alternatives`, `State.Dies.repeated`: what a compiler builds of states
  that fail in place.
- `Grammar.Opens.dies`: the state of a grammar that opens with a function fails where it is not found.
-/

namespace ValueGrammar

/-- Everything that the grammar looks at first is a function that is found under the key. Types and
properties are followed to grammars that can be compiled, unless they may be put off. -/
inductive Grammar.Opens (env : Reference → Option Meaning) (key : String) : Grammar → Prop where
  | function {name} (h : Text.lower name ++ "(" = key) : Opens env key (.function name)
  | row {t terms b n} (h : Opens env key t) : Opens env key (.group .juxtapose (t :: terms) b n)
  | choice {c terms b n} (hc : c ≠ .juxtapose) (h : ∀ t ∈ terms, Opens env key t) :
      Opens env key (.group c terms b n)
  | multiplier {t min max separated} (hmin : 1 ≤ min) (h : Opens env key t) :
      Opens env key (.multiplier t min max separated)
  | type {name range g s} (hname : name ≠ "custom-ident" ∧ name ≠ "length")
      (hg : env ⟨.type, name⟩ = some (.grammar g))
      (hs : (Compiler.standard false).compile g = .ok s) (h : Opens env key g) :
      Opens env key (.type name range)
  | property {name g s} (hg : env ⟨.property, name⟩ = some (.grammar g))
      (hs : (Compiler.standard false).compile g = .ok s) (h : Opens env key g) :
      Opens env key (.property name)

/-! ## States that fail in place -/

namespace State

variable {ε : Type} {m : Machine ε} {p : Reference → Prop} {i : Nat} {test next other term : State}

theorem Dies.of_branch? {s : State} (h : s.Dies m p i) (hb : s.branch? = some (test, next, other)) :
    test.Dies m p i := by
  cases h with
  | branch hb' ht =>
      rw [hb] at hb'
      cases hb'
      exact ht
  | _ => cases hb

/-- A conditional fails in place where its test and its alternative do. -/
theorem Dies.build (ht : test.Dies m p i) (ho : other.Dies m p i) :
    (State.branch test next other).Dies m p i := by
  rw [branch_eq_merged]
  split
  · exact ht
  · split
    · exact ht
    · split
      · cases hb : test.branch? with
        | none =>
            rw [merged?, hb]
            exact .branch rfl ht ho
        | some parts =>
            obtain ⟨test', next', other'⟩ := parts
            simp only [merged?, hb]
            split
            · rename_i hmerged
              split at hmerged
              · cases hmerged
                exact .branch rfl (ht.of_branch? hb) ho
              · cases hmerged
            · exact .branch rfl ht ho
      · exact .branch rfl ht ho

theorem Dies.checked {s : State} (h : s.Dies m p i) (nonEmpty : Bool) :
    (if nonEmpty then (Compiler.standard false).branch s .nonEmpty .reject else s).Dies m p i := by
  cases nonEmpty with
  | false => exact h
  | true =>
      change (State.branch s .nonEmpty .reject).Dies m p i
      exact h.build .reject

/-- Alternatives without a table fail in place where each of them does. -/
theorem Dies.alternatives {terms : List (Grammar × State)} (h : ∀ t ∈ terms, t.2.Dies m p i) :
    ((Compiler.standard false).alternatives terms).Dies m p i := by
  have hfrom : ∀ before, ((Compiler.addAlternatives (.standard false) before terms).close
      (.standard false)).Dies m p i := by
    induction terms with
    | nil => exact fun _ => .reject
    | cons t terms ih =>
        intro before
        exact Dies.build (h t List.mem_cons_self)
          (ih (fun t ht => h t (List.mem_cons_of_mem _ ht)) (some t.1))
  exact hfrom none

/-- A group that is not a row fails in place where each of its terms does. -/
theorem Dies.grouped {node : Grammar} {c : Combinator} {terms : List Grammar} {f : Grammar → State}
    {state : State} (hc : c ≠ .juxtapose) (h : ∀ t ∈ terms, (f t).Dies m p i)
    (hs : Compiler.grouped (.standard false) node c (terms.map fun t => (t, f t)) = .ok state) :
    state.Dies m p i := by
  have hany : ∀ {all : Bool}, (∃ t, terms = [t] ∧ state = f t) ∨
      (terms.length ≤ 64 ∧ state = .once (terms.map f) all node) → state.Dies m p i := by
    rintro all (⟨t, rfl, rfl⟩ | ⟨hlen, rfl⟩)
    · exact h t List.mem_cons_self
    · exact .once (by simpa using hlen) (by simpa using h)
  cases c with
  | juxtapose => exact absurd rfl hc
  | one =>
      cases hs
      exact .alternatives (by simpa using h)
  | all => exact hany (Compiler.grouped_inAnyOrder_ok (.inl ⟨rfl, rfl⟩) hs)
  | any => exact hany (Compiler.grouped_inAnyOrder_ok (.inr ⟨rfl, rfl⟩) hs)
  | other => cases hs

theorem Dies.mandatory {node : Grammar} {separated : Bool} (h : term.Dies m p i)
    (hn : next.Dies m p i) (n : Nat) :
    (Compiler.mandatory (.standard false) node separated term next n).Dies m p i := by
  cases n with
  | zero => exact hn
  | succ n => exact h.build .reject

/-- Repetitions of which there is at least one fail in place where the term does. -/
theorem Dies.repeated {node : Grammar} {separated : Bool} {min : Int} {max : Option Int}
    (hmin : 1 ≤ min) (hmax : ∀ hi, max = some hi → Max.max min 1 ≤ hi) (h : term.Dies m p i) :
    (Compiler.repeated (.standard false) node min max separated term).Dies m p i := by
  have hzero : (min == 0) = false := by
    rw [beq_eq_false_iff_ne]
    omega
  unfold Compiler.repeated
  cases max with
  | none =>
      simp only [hzero]
      have hbody : (State.branch term .nonEmpty .reject).Dies m p i := h.build .reject
      exact .mandatory hbody (.branch rfl hbody .reject) _
  | some hi =>
      simp only [hzero]
      obtain ⟨n, hn⟩ : ∃ n, (hi - Max.max min 1 + 1).toNat = n + 1 :=
        ⟨(hi - Max.max min 1).toNat, by have hle := hmax hi rfl; omega⟩
      rw [hn]
      exact .mandatory h (h.build .reject) _

end State

/-! ## Grammars -/

namespace Grammar

/-- The names of the functions in the grammar are ASCII. -/
def AsciiFunctions (g : Grammar) : Prop := ∀ name, Grammar.function name ∈ g.nodes → Text.IsAscii name

variable {env : Reference → Option Meaning} {m : Machine Error} {p : Reference → Prop} {i : Nat}
  {key : String} {g : Grammar}

/-- **A grammar that opens with a function fails in place at any token that is not this function.** The
induction is on what it looks at first. -/
theorem Opens.dies (hopens : g.Opens env key) (hm : ∀ r, m.resolve r = r.root false (env r))
    (hts : ∀ t ∈ m.tokens, Text.IsAscii t.value)
    (henv : ∀ r g, env r = some (.grammar g) → g.WellFormed ∧ g.AsciiFunctions)
    (hw : g.WellFormed) (hnames : g.AsciiFunctions) {s : State}
    (hs : (Compiler.standard false).compile g = .ok s) (hkey : ¬ KeyAt m.tokens i key) :
    s.Dies m p i := by
  induction hopens generalizing s with
  | @function name h =>
      cases hs
      cases hw with
      | function hchars =>
          subst h
          exact .leaf ((keyed_function hts (hnames name (self_mem_nodes _)) hchars).misses hkey)
  | @row t terms b n _ ih =>
      obtain ⟨hall, state, hgrouped, rfl⟩ := Compiler.compile_group_ok hs
      have hterm : ((Compiler.standard false).stateOf t).Dies m p i :=
        ih (hw.of_mem_nodes (mem_nodes_group List.mem_cons_self (self_mem_nodes t)))
          (fun name hm => hnames name (mem_nodes_group List.mem_cons_self hm))
          (hall t List.mem_cons_self)
      -- a row is tried from its first term on
      have hstate : state.Dies m p i := by
        cases hgrouped
        rw [List.map_cons, List.map_cons, List.foldr_cons]
        change (State.branch _ _ .reject).Dies m p i
        exact hterm.build .reject
      exact hstate.checked n
  | @choice c terms b n hc _ ih =>
      obtain ⟨hall, state, hgrouped, rfl⟩ := Compiler.compile_group_ok hs
      have hterms : ∀ t ∈ terms, ((Compiler.standard false).stateOf t).Dies m p i :=
        fun t ht => ih t ht (hw.of_mem_nodes (mem_nodes_group ht (self_mem_nodes t)))
          (fun name hm => hnames name (mem_nodes_group ht hm)) (hall t ht)
      have hstate : state.Dies m p i := .grouped hc hterms hgrouped
      exact hstate.checked n
  | @multiplier t min max separated hmin _ ih =>
      obtain ⟨ht, rfl⟩ := Compiler.compile_multiplier_ok hs
      cases hw with
      | multiplier _ hmax hw =>
          exact .repeated hmin hmax (ih hw (fun name hm => hnames name (mem_nodes_multiplier hm)) ht)
  | @type name range g root hname hg hroot _ ih =>
      cases hs
      have hresolve : m.resolve ⟨.type, name⟩ = .ok (some root) := by
        rw [hm, hg, Reference.root, hroot]
        rfl
      refine .call hresolve (fun t => ?_) (ih (henv _ g hg).1 (henv _ g hg).2 hroot)
      simp [Machine.isLowPriority, hname]
  | @property name g root hg hroot _ ih =>
      cases hs
      have hresolve : m.resolve ⟨.property, name⟩ = .ok (some root) := by
        rw [hm, hg, Reference.root, hroot]
        rfl
      exact .call hresolve (fun t => rfl) (ih (henv _ g hg).1 (henv _ g hg).2 hroot)

end Grammar

end ValueGrammar

import ValueGrammar.Proofs.Machine.Record
import ValueGrammar.Proofs.Machine.Steps
import Mathlib.Order.Bounds.Basic
import Mathlib.Order.Nat

/-!
# `ValueGrammar.Proofs.Brackets` — how many tokens the counting recognizers take

Two kinds of values reach as far as their brackets do. A value with balanced brackets goes on up to the
first token that it cannot go on with, and a function goes on up to the parenthesis that closes it. Both
are said here about the tokens themselves, without the stack of brackets and without the depth that are
kept while they are counted.

## Contents
- `Token.Balanced`, `Token.InnermostOpen`: which brackets are still open after some tokens.
- `Token.Stops`: a value with balanced brackets cannot go on with a token.
- `Recognizer.stops_iff`: the stack of brackets knows that.
- `Token.Outnumbered`, `Recognizer.functionLength_eq_succ_iff`: where a function is closed.
- `Recognizer.reach_of_brackets`: how far the counts reach, and what a machine takes.
-/

namespace ValueGrammar

namespace TokenKind

/-- The closing bracket that an opening one asks for. -/
def closer? : TokenKind → Option TokenKind
  | .function => some .rightParen
  | .leftParen => some .rightParen
  | .leftBracket => some .rightBracket
  | .leftBrace => some .rightBrace
  | _ => none

/-- Is it a closing bracket? -/
def isCloser : TokenKind → Bool
  | .rightParen => true
  | .rightBracket => true
  | .rightBrace => true
  | _ => false

theorem closer?_of_isCloser {k : TokenKind} (h : k.isCloser = true) : k.closer? = none := by
  cases k <;> first | rfl | cases h

theorem isCloser_of_closer? {k c : TokenKind} (h : k.closer? = some c) : c.isCloser = true := by
  cases k <;> cases h <;> rfl

end TokenKind

/-! ## Open brackets -/

namespace Token

/-- Tokens whose brackets are opened and closed among themselves. -/
inductive Balanced : List Token → Prop where
  | nil : Balanced []
  | plain {t ts} (ho : t.kind.closer? = none) (hc : t.kind.isCloser = false) (h : Balanced ts) :
      Balanced (t :: ts)
  | nested {t inner e rest} (he : t.kind.closer? = some e.kind) (hi : Balanced inner)
      (hr : Balanced rest) : Balanced (t :: (inner ++ e :: rest))

theorem Balanced.append {ts us : List Token} (h : Balanced ts) (hu : Balanced us) :
    Balanced (ts ++ us) := by
  induction h with
  | nil => exact hu
  | plain ho hc _ ih => exact .plain ho hc ih
  | nested he hi _ _ ih =>
      rw [List.cons_append, List.append_assoc, List.cons_append]
      exact .nested he hi ih

/-- The token is the innermost bracket that is still open after the tokens `before`: it opens one, and
the brackets after it are balanced. -/
def InnermostOpen (before : List Token) (b : Token) : Prop :=
  ∃ outer inner, before = outer ++ b :: inner ∧ b.kind.closer? ≠ none ∧ Balanced inner

/-- A value cannot go on with the token after the tokens `before`: it closes another bracket than the
innermost open one. A declaration value does not go on with a bad token either, nor with a `;` or a `!`
while no bracket is open. -/
inductive Stops (declaration : Bool) (before : List Token) (t : Token) : Prop where
  | closing (hc : t.kind.isCloser = true)
      (h : ∀ b, InnermostOpen before b → b.kind.closer? ≠ some t.kind) : Stops declaration before t
  | bad (hd : declaration = true) (hk : t.kind = .badString ∨ t.kind = .badUrl) :
      Stops declaration before t
  | ends (hd : declaration = true) (hno : ∀ b, ¬ InnermostOpen before b)
      (hk : t.kind = .semicolon ∨ t.kind = .delim ∧ t.value = "!") : Stops declaration before t

/-- The closing brackets that some tokens ask for, the next one first. -/
inductive Due : List Token → List TokenKind → Prop where
  | balanced {ts} (h : Balanced ts) : Due ts []
  | inside {outer b inner c closers} (ho : Due outer closers) (hb : b.kind.closer? = some c)
      (hi : Balanced inner) : Due (outer ++ b :: inner) (c :: closers)

theorem Due.append {ts us : List Token} {closers : List TokenKind} (h : Due ts closers)
    (hu : Balanced us) : Due (ts ++ us) closers := by
  cases h with
  | balanced h => exact .balanced (h.append hu)
  | inside ho hb hi =>
      rw [List.append_assoc, List.cons_append]
      exact .inside ho hb (hi.append hu)

theorem Due.exists_innermostOpen {ts : List Token} {c : TokenKind} {closers : List TokenKind}
    (h : Due ts (c :: closers)) : ∃ b, InnermostOpen ts b ∧ b.kind.closer? = some c := by
  cases h with
  | @inside outer b inner _ _ _ hb hi => exact ⟨b, ⟨outer, inner, rfl, by simp [hb], hi⟩, hb⟩

/-! ## Parentheses -/

/-- How many of the tokens open a parenthesis. -/
def opening (ts : List Token) : Nat := ts.countP fun t => t.kind == .function || t.kind == .leftParen

/-- How many of the tokens close a parenthesis. -/
def closing (ts : List Token) : Nat := ts.countP fun t => t.kind == .rightParen

/-- Among the tokens after the first one, up to and with place `i`, more parentheses are closed than
opened. -/
def Outnumbered (ts : List Token) (i : Nat) : Prop :=
  i < ts.length ∧ opening ((ts.drop 1).take i) < closing ((ts.drop 1).take i)

end Token

namespace Recognizer

open Token

/-! ## The stack of brackets -/

section bracketsAfter

variable {declaration : Bool} {closers closers' : List TokenKind} {t : Token}

theorem bracketsAfter_of_opening {c : TokenKind} (h : t.kind.closer? = some c) :
    bracketsAfter declaration closers t = some (c :: closers) := by
  unfold bracketsAfter
  split <;> simp_all [TokenKind.closer?]

theorem bracketsAfter_of_isCloser (h : t.kind.isCloser = true) :
    bracketsAfter declaration closers t =
      if closers.head? = some t.kind then some closers.tail else none := by
  unfold bracketsAfter
  split <;> simp_all [TokenKind.isCloser]

/-- A token that is no bracket leaves the brackets as they are, if a value goes on with it. -/
theorem bracketsAfter_of_plain (ho : t.kind.closer? = none) (hc : t.kind.isCloser = false) :
    bracketsAfter declaration closers t =
      if declaration = true ∧ ((t.kind = .badString ∨ t.kind = .badUrl) ∨
        closers = [] ∧ (t.kind = .semicolon ∨ t.kind = .delim ∧ t.value = "!"))
      then none else some closers := by
  unfold bracketsAfter
  split <;> simp_all [TokenKind.closer?, TokenKind.isCloser, and_assoc]

end bracketsAfter

/-! ## Values with balanced brackets -/

/-- Balanced brackets are all closed again. -/
theorem foldlM_bracketsAfter_of_balanced {ts : List Token} (h : Balanced ts)
    (closers : List TokenKind) : ts.foldlM (bracketsAfter false) closers = some closers := by
  induction h generalizing closers with
  | nil => rfl
  | plain ho hc _ ih => simp [List.foldlM_cons, bracketsAfter_of_plain ho hc, ih]
  | nested he _ _ ihi ihr =>
      have hclose := TokenKind.isCloser_of_closer? he
      simp [List.foldlM_cons, List.foldlM_append, bracketsAfter_of_opening he,
        bracketsAfter_of_isCloser hclose, ihi, ihr]

theorem foldlM_bracketsAfter_of_due {ts : List Token} {closers : List TokenKind}
    (h : Due ts closers) : ts.foldlM (bracketsAfter false) [] = some closers := by
  induction h with
  | balanced h => exact foldlM_bracketsAfter_of_balanced h []
  | inside _ hb hi ih =>
      simp [List.foldlM_cons, List.foldlM_append, ih, bracketsAfter_of_opening hb,
        foldlM_bracketsAfter_of_balanced hi]

variable {declaration : Bool} {before ts : List Token} {closers closers' : List TokenKind}
  {t b : Token}

/-- The bracket that is due next is that of the innermost open one. There is only one of these, as
counting the brackets after it leads to the same stack. -/
theorem head?_of_innermostOpen (h : Due before closers) (hb : InnermostOpen before b) :
    closers.head? = b.kind.closer? := by
  obtain ⟨outer, inner, rfl, hopen, hi⟩ := hb
  obtain ⟨c, hc⟩ := Option.ne_none_iff_exists'.mp hopen
  have hrun := foldlM_bracketsAfter_of_due h
  rw [List.foldlM_append] at hrun
  obtain ⟨outside, -, hrun⟩ := Option.bind_eq_some_iff.mp hrun
  simp only [List.foldlM_cons, bracketsAfter_of_opening hc, Option.bind_eq_bind,
    Option.bind_some, foldlM_bracketsAfter_of_balanced hi, Option.some.injEq] at hrun
  rw [← hrun, hc, List.head?_cons]

theorem head?_eq_some_iff (h : Due before closers) {c : TokenKind} :
    closers.head? = some c ↔ ∃ b, InnermostOpen before b ∧ b.kind.closer? = some c := by
  constructor
  · intro hc
    obtain ⟨rest, rfl⟩ := List.head?_eq_some_iff.mp hc
    exact h.exists_innermostOpen
  · rintro ⟨b, hb, hc⟩
    rw [head?_of_innermostOpen h hb, hc]

theorem eq_nil_iff (h : Due before closers) : closers = [] ↔ ∀ b, ¬ InnermostOpen before b := by
  rw [← List.head?_eq_none_iff, Option.eq_none_iff_forall_ne_some]
  simp only [ne_eq, head?_eq_some_iff h]
  constructor
  · intro hno b hb
    obtain ⟨-, -, -, hopen, -⟩ := id hb
    obtain ⟨c, hc⟩ := Option.ne_none_iff_exists'.mp hopen
    exact hno c ⟨b, hb, hc⟩
  · rintro hno c ⟨b, hb, -⟩
    exact hno b hb

/-- **A token stops a value exactly if the stack of brackets does not go on with it.** -/
theorem stops_iff (h : Due before closers) :
    Stops declaration before t ↔ bracketsAfter declaration closers t = none := by
  cases ho : t.kind.closer? with
  | some c =>
      -- an opening bracket never stops a value
      rw [bracketsAfter_of_opening ho]
      constructor
      · rintro (⟨hc, -⟩ | ⟨-, hk | hk⟩ | ⟨-, -, hk | ⟨hk, -⟩⟩)
        · rw [TokenKind.closer?_of_isCloser hc] at ho; cases ho
        all_goals rw [hk] at ho; cases ho
      · intro he; cases he
  | none =>
      cases hc : t.kind.isCloser with
      | true =>
          rw [bracketsAfter_of_isCloser hc]
          have hhead : (∀ b, InnermostOpen before b → b.kind.closer? ≠ some t.kind) ↔
              closers.head? ≠ some t.kind := by
            rw [Ne, head?_eq_some_iff h]
            simp
          constructor
          · rintro (⟨-, hb⟩ | ⟨-, hk | hk⟩ | ⟨-, -, hk | ⟨hk, -⟩⟩)
            · rw [if_neg (hhead.mp hb)]
            all_goals rw [hk] at hc; cases hc
          · intro he
            refine .closing hc (hhead.mpr fun hh => ?_)
            rw [if_pos hh] at he
            cases he
      | false =>
          rw [bracketsAfter_of_plain ho hc]
          constructor
          · rintro (⟨hc', -⟩ | ⟨hd, hk⟩ | ⟨hd, hno, hk⟩)
            · rw [hc'] at hc; cases hc
            · rw [if_pos ⟨hd, .inl hk⟩]
            · rw [if_pos ⟨hd, .inr ⟨(eq_nil_iff h).mpr hno, hk⟩⟩]
          · intro he
            split at he
            · rename_i hstop
              obtain ⟨hd, hk | ⟨hnil, hk⟩⟩ := hstop
              · exact .bad hd hk
              · exact .ends hd ((eq_nil_iff h).mp hnil) hk
            · cases he

/-- Going on with a token, the closing brackets that are due are those on the stack. -/
theorem due_append (h : Due before closers)
    (ht : bracketsAfter declaration closers t = some closers') : Due (before ++ [t]) closers' := by
  cases ho : t.kind.closer? with
  | some c =>
      rw [bracketsAfter_of_opening ho] at ht
      cases ht
      exact .inside h ho .nil
  | none =>
      cases hc : t.kind.isCloser with
      | true =>
          rw [bracketsAfter_of_isCloser hc] at ht
          split at ht
          · rename_i hhead
            cases ht
            cases h with
            | balanced => cases hhead
            | inside houter hb hi =>
                -- the bracket is closed, and belongs to what stands before it
                cases hhead
                rw [List.append_assoc, List.cons_append]
                exact houter.append (.nested hb hi .nil)
          · cases ht
      | false =>
          rw [bracketsAfter_of_plain ho hc] at ht
          split at ht
          · cases ht
          · cases ht
            exact h.append (.plain ho hc .nil)

/-- No token that is counted stops the value. The induction is on the tokens that are left, with those
that were counted before them. -/
theorem not_stops_of_lt (h : Due before closers) {i : Nat}
    (hi : i < balancedLength declaration closers ts) (ht : ts[i]? = some t) :
    ¬ Stops declaration (before ++ ts.take i) t := by
  induction ts generalizing before closers i with
  | nil => cases ht
  | cons u us ih =>
      rw [balancedLength] at hi
      split at hi
      · rename_i closers' hu
        cases i with
        | zero =>
            cases ht
            rw [List.take_zero, List.append_nil, stops_iff h, hu]
            exact Option.some_ne_none _
        | succ i =>
            have hrest := ih (due_append h hu) (Nat.lt_of_succ_lt_succ hi) ht
            rwa [List.append_assoc, List.singleton_append, ← List.take_succ_cons] at hrest
      · cases hi

/-- The first token that is not counted stops the value. -/
theorem stops_of_eq (h : Due before closers)
    (ht : ts[balancedLength declaration closers ts]? = some t) :
    Stops declaration (before ++ ts.take (balancedLength declaration closers ts)) t := by
  induction ts generalizing before closers with
  | nil => cases ht
  | cons u us ih =>
      rw [balancedLength] at ht ⊢
      split at ht
      · rename_i closers' hu
        have hrest := ih (due_append h hu) ht
        rwa [List.append_assoc, List.singleton_append, ← List.take_succ_cons] at hrest
      · rename_i hu
        cases ht
        rw [List.take_zero, List.append_nil]
        exact (stops_iff h).mpr hu

/-- **A value with balanced brackets takes the longest stretch of tokens none of which stops it.** -/
theorem isGreatest_balancedLength (declaration : Bool) (ts : List Token) :
    IsGreatest
      {k | k ≤ ts.length ∧ ∀ i t, i < k → ts[i]? = some t → ¬ Stops declaration (ts.take i) t}
      (balancedLength declaration [] ts) := by
  have hdue : Due [] [] := .balanced .nil
  refine ⟨⟨balancedLength_le declaration [] ts, fun i t hi ht => not_stops_of_lt hdue hi ht⟩, ?_⟩
  rintro k ⟨hk, hgo⟩
  refine Nat.le_of_not_lt fun hlt => ?_
  have hget := List.getElem?_eq_getElem (Nat.lt_of_lt_of_le hlt hk)
  exact hgo _ _ hlt hget (stops_of_eq hdue hget)

/-! ## Functions -/

/-- The first `n` tokens close `depth` open parentheses. -/
def Closed (depth : Nat) (ts : List Token) (n : Nat) : Prop :=
  n ≤ ts.length ∧ opening (ts.take n) + depth ≤ closing (ts.take n)

theorem not_closed_zero {depth : Nat} : ¬ Closed (depth + 1) ts 0 := by
  rintro ⟨-, h⟩
  simp [closing] at h

theorem closed_cons_of_opening {depth n : Nat} (h : t.kind = .function ∨ t.kind = .leftParen) :
    Closed (depth + 1) (t :: ts) (n + 1) ↔ Closed (depth + 2) ts n := by
  have hc : (t.kind == .rightParen) = false := by rcases h with h | h <;> simp [h]
  have ho : (t.kind == .function || t.kind == .leftParen) = true := by
    rcases h with h | h <;> simp [h]
  simp only [Closed, List.length_cons, List.take_succ_cons, opening, closing, List.countP_cons, hc, ho]
  simp only [if_true, Bool.false_eq_true, if_false]
  omega

theorem closed_cons_of_closing {depth n : Nat} (h : t.kind = .rightParen) :
    Closed (depth + 1) (t :: ts) (n + 1) ↔ Closed depth ts n := by
  simp only [Closed, List.length_cons, List.take_succ_cons, opening, closing, List.countP_cons, h]
  simp
  omega

theorem closed_cons_of_plain {depth n : Nat}
    (h : t.kind ≠ .function ∧ t.kind ≠ .leftParen ∧ t.kind ≠ .rightParen) :
    Closed (depth + 1) (t :: ts) (n + 1) ↔ Closed (depth + 1) ts n := by
  obtain ⟨hf, hl, hr⟩ := h
  simp [Closed, opening, closing, hf, hl, hr]

/-- The least number that passes a test is one more than the least one whose successor passes it, if
zero does not. -/
theorem isLeast_succ_iff {p q : Nat → Prop} (h0 : ¬ p 0) (h : ∀ n, p (n + 1) ↔ q n) {m : Nat} :
    IsLeast {n | p n} m ↔ ∃ n, IsLeast {n | q n} n ∧ n + 1 = m := by
  constructor
  · rintro ⟨hm, hleast⟩
    cases m with
    | zero => exact absurd hm h0
    | succ n =>
        refine ⟨n, ⟨(h n).mp hm, fun k hk => ?_⟩, rfl⟩
        exact Nat.le_of_succ_le_succ (hleast ((h k).mpr hk))
  · rintro ⟨n, ⟨hn, hleast⟩, rfl⟩
    refine ⟨(h n).mpr hn, fun k hk => ?_⟩
    cases k with
    | zero => exact absurd hk h0
    | succ k => exact Nat.succ_le_succ (hleast ((h k).mp hk))

/-- **A function goes on up to the first place where its parentheses are closed.** The induction is on
the tokens. -/
theorem functionLength?_eq_some_iff {depth n : Nat} :
    functionLength? (depth + 1) ts = some n ↔ IsLeast {n | Closed (depth + 1) ts n} n := by
  induction ts generalizing depth n with
  | nil =>
      have hnone : ∀ n, ¬ Closed (depth + 1) [] n := by
        intro n hn
        obtain rfl := Nat.le_zero.mp hn.1
        exact not_closed_zero hn
      constructor
      · intro h; cases h
      · intro h; exact absurd h.1 (hnone n)
  | cons t ts ih =>
      rw [functionLength?]
      split
      · rename_i hk
        rw [isLeast_succ_iff not_closed_zero fun _ => closed_cons_of_opening (.inl hk),
          Option.map_eq_some_iff]
        simp only [ih]
      · rename_i hk
        rw [isLeast_succ_iff not_closed_zero fun _ => closed_cons_of_opening (.inr hk),
          Option.map_eq_some_iff]
        simp only [ih]
      · rename_i hk
        rw [isLeast_succ_iff not_closed_zero fun _ => closed_cons_of_closing hk]
        cases depth with
        | zero =>
            -- this parenthesis closes the function
            have hzero : IsLeast {n | Closed 0 ts n} 0 :=
              ⟨⟨Nat.zero_le _, by simp [opening]⟩, fun _ _ => Nat.zero_le _⟩
            rw [if_pos (Nat.le_refl 1), Option.some.injEq]
            constructor
            · rintro rfl; exact ⟨0, hzero, rfl⟩
            · rintro ⟨k, hk, rfl⟩; rw [hk.unique hzero]
        | succ depth =>
            rw [if_neg (by omega), Option.map_eq_some_iff, Nat.add_sub_cancel]
            simp only [ih]
      · rename_i hf hl hr
        rw [isLeast_succ_iff not_closed_zero fun _ => closed_cons_of_plain ⟨hf, hl, hr⟩,
          Option.map_eq_some_iff]
        simp only [ih]

theorem outnumbered_cons_iff {i : Nat} : Outnumbered (t :: ts) i ↔ Closed 1 ts i := by
  rw [Outnumbered, Closed, List.length_cons, Nat.lt_succ_iff]
  rfl

/-- **A function is counted up to the first parenthesis by which more are closed than opened.** -/
theorem functionLength_eq_succ_iff {n : Nat} :
    functionLength ts = n + 1 ↔ 1 ≤ n ∧ IsLeast {i | Outnumbered ts i} n := by
  cases ts with
  | nil =>
      constructor
      · intro h; cases h
      · rintro ⟨-, ⟨hlt, -⟩, -⟩; cases hlt
  | cons t ts =>
      have hiff : functionLength (t :: ts) = n + 1 ↔ functionLength? 1 ts = some n := by
        rw [functionLength]
        cases functionLength? 1 ts <;> simp
      rw [hiff, functionLength?_eq_some_iff]
      simp only [outnumbered_cons_iff]
      constructor
      · intro h
        refine ⟨Nat.one_le_iff_ne_zero.mpr ?_, h⟩
        rintro rfl
        exact not_closed_zero h.1
      · exact And.right

theorem functionLength_eq_zero_iff : functionLength ts = 0 ↔ ∀ i, ¬ Outnumbered ts i := by
  constructor
  · intro h i hi
    classical
    -- if there is such a place there is a first one
    have hleast := Nat.isLeast_find ⟨i, hi⟩
    have hpos : 1 ≤ Nat.find ⟨i, hi⟩ := by
      refine Nat.one_le_iff_ne_zero.mpr fun h0 => ?_
      obtain ⟨-, hlt⟩ := hleast.1
      rw [h0, List.take_zero] at hlt
      cases hlt
    rw [functionLength_eq_succ_iff.mpr ⟨hpos, hleast⟩] at h
    cases h
  · intro hno
    refine Nat.eq_zero_of_not_pos fun hpos => ?_
    obtain ⟨n, hn⟩ := Nat.exists_eq_succ_of_ne_zero (Nat.ne_of_gt hpos)
    exact hno n (functionLength_eq_succ_iff.mp hn).2.1

/-! ## Taking what was counted -/

/-- A machine takes as many tokens for a generic type as its recognizer counts. -/
theorem step_generic {ε : Type} (m : Machine ε) (c : Config) (name : String) (r : Recognizer)
    (node : Grammar) :
    ∃ c', m.step (c.goto (.leaf (.generic name r) node)) = .next c' ∧
      c'.index = c.index + r.consume (m.ahead c) c.here.range ∧
      c'.trace.taken = c.trace.taken ++
        ((m.ahead c).take (r.consume (m.ahead c) c.here.range)).zipIdx c.index := by
  refine ⟨_, Machine.step_leaf rfl (Leaf.take_generic name r _ _ _), ?_, ?_⟩
  · rw [Config.takeTokens_eq]
    change c.index + ((m.ahead c).take (r.consume (m.ahead c) c.here.range)).length = _
    rw [List.length_take, Nat.min_eq_left (r.consume_le _ _)]
  · rw [Config.takeTokens_eq]
    exact Trace.taken_taking node c.index _ c.trace

/-- **How far the recognizers that count brackets reach.** A value with balanced brackets takes the
longest stretch of tokens none of which stops it. A function is closed by the first parenthesis by which
more are closed than were opened after its name, and takes none if there is no such parenthesis. Neither
takes more tokens than there are, so that a machine takes as many as were counted. -/
theorem reach_of_brackets (ts : List Token) :
    (∀ declaration, IsGreatest
      {k | k ≤ ts.length ∧ ∀ i t, i < k → ts[i]? = some t → ¬ Stops declaration (ts.take i) t}
      (balancedLength declaration [] ts)) ∧
    (∀ k, functionLength ts = k + 1 ↔ 1 ≤ k ∧ IsLeast {i | Outnumbered ts i} k) ∧
    (functionLength ts = 0 ↔ ∀ i, ¬ Outnumbered ts i) ∧
    (∀ declaration, balancedLength declaration [] ts ≤ ts.length) ∧
    functionLength ts ≤ ts.length ∧
    ∀ {ε : Type} (m : Machine ε) (c : Config) (name : String) (r : Recognizer) (node : Grammar),
      ∃ c', m.step (c.goto (.leaf (.generic name r) node)) = .next c' ∧
        c'.index = c.index + r.consume (m.ahead c) c.here.range ∧
        c'.trace.taken = c.trace.taken ++
          ((m.ahead c).take (r.consume (m.ahead c) c.here.range)).zipIdx c.index :=
  ⟨fun declaration => isGreatest_balancedLength declaration ts,
    fun _ => functionLength_eq_succ_iff, functionLength_eq_zero_iff,
    fun declaration => balancedLength_le declaration [] ts, functionLength_le ts,
    fun m c name r node => step_generic m c name r node⟩

end Recognizer

end ValueGrammar

import ValueGrammar.Grammar.Reader
import ValueGrammar.Proofs.Number

/-!
# `ValueGrammar.Proofs.Notation.Written` — the grammars that can be written

A grammar made by hand can have names with spaces in them, tokens of several characters, or groups
nested against the precedence of their combinators, and then its text says something else. The reader
makes none of these: what it answers with is `Written`, construct by construct, and a whole
definition is a row of such terms.

## Contents
- `Grammar.Written`, `Grammar.IsDefinition`: the terms and the definitions that can be written.
- `Parser.Yields`, `Parser.YieldsFrom`: every value a parser answers with has a property; one rule
  for each way to build a parser.
- `Grammar.isDefinition_of_parse`: a grammar that was read is a definition.
-/

namespace ValueGrammar

/-! ## What is written -/

namespace Binary64

/-- The number can be the bound of a range. -/
def IsBound : Binary64 → Prop
  | .finite _ m => IsMagnitude m
  | .infinite _ => True
  | .nan => False

theorem IsBound.neg {v : Binary64} (h : v.IsBound) : v.neg.IsBound := by
  cases v <;> exact h

end Binary64

/-- Both bounds can be written, and they are in order. -/
structure Range.Written (r : Range) : Prop where
  lo : r.lo.IsBound
  hi : r.hi.IsBound
  le : r.lo.le r.hi = true

/-- The combinators between the terms have a sign. -/
def Row.Joined (row : Row) : Prop := ∀ ct ∈ row.tail, ct.1 ∈ Combinator.looseToTight

namespace Grammar

/-- One or more characters of names. -/
structure IsName (name : String) : Prop where
  ne : name.toList ≠ []
  chars : ∀ c ∈ name.toList, Read.isNameChar c = true

/-- A name that can stand on its own, without a sign in front of it. -/
structure IsWord (name : String) : Prop extends IsName name where
  start : ∀ c ∈ name.toList.head?, Read.isNameStart c = true

/-- A character that is a term of its own: it starts nothing else. -/
def IsSign (c : Char) : Prop :=
  Scan.isSpace c = false ∧ Read.isNameStart c = false ∧ c ∉ "[<'\"@,]|&".toList

/-- The limits of a multiplier are numbers that can be written, in order. -/
structure IsLimits (min : Int) (max : Option Int) : Prop where
  lower : ∃ lo : Nat, min = lo ∧ lo ≤ Read.maxInt
  upper : ∀ hi, max = some hi → ∃ n : Nat, hi = n ∧ n ≤ Read.maxInt ∧ min ≤ hi ∧ 0 < n

/-- The terms that can be written. -/
inductive Written : Grammar → Prop where
  | group {row : Row} (hj : row.Joined) (h : ∀ t ∈ row.terms, Written t) :
      Written (row.toGroup true)
  | nonEmpty {row : Row} (hj : row.Joined) (h : ∀ t ∈ row.terms, Written t) :
      Written (Read.markNonEmpty (row.toGroup true))
  | multiplier {t min max separated} (h : Written t) (hl : IsLimits min max) :
      Written (.multiplier t min max separated)
  | keyword {name} (h : IsWord name) : Written (.keyword name)
  | atKeyword {name} (h : IsName name) : Written (.atKeyword name)
  | function {name} (h : IsWord name) : Written (.function name)
  | type {name parens range} (h : IsName name) (hp : parens = "" ∨ parens = "()")
      (hr : ∀ r, range = some r → r.Written) : Written (.type (name ++ parens) range)
  | property {name} (h : IsName name) : Written (.property name)
  | token {c : Char} (h : IsSign c) : Written (.token c.toString)
  | string {quote body} (hq : quote = '\'' ∨ quote = '"')
      (h : Read.stringLength? quote body = some body.length) :
      Written (.string (String.ofList (quote :: body)))
  | comma : Written .comma

/-- A whole definition: a row of terms, or a single group. -/
def IsDefinition (g : Grammar) : Prop :=
  ∃ row : Row, row.Joined ∧ (∀ t ∈ row.terms, Written t) ∧ g = Read.unwrap (row.toGroup false)

end Grammar

/-! ## Parsers -/

namespace Parser

variable {α β : Type} {pre : List Char → Prop} {P : α → Prop} {Q : β → Prop}

/-- Every value the parser answers with has the property. -/
def Yields (p : Parser α) (P : α → Prop) : Prop := ∀ c a c', p c = (.ok a, c') → P a

theorem yields_any (p : Parser α) : p.Yields fun _ => True := fun _ _ _ _ => trivial

theorem yields_pure {a : α} (h : P a) : Yields (pure a) P := by
  intro c b c' hp
  cases hp
  exact h

theorem yields_bind {p : Parser α} {f : α → Parser β} (hp : p.Yields P)
    (hf : ∀ a, P a → (f a).Yields Q) : Yields (p >>= f) Q := by
  intro c b c' h
  change andThen p f c = _ at h
  unfold andThen at h
  split at h
  · rename_i a c₁ ha
    exact hf a (hp c a c₁ ha) c₁ b c' h
  · cases h

/-- What a parser whose own value does not matter is followed by. -/
theorem yields_then {p : Parser α} {f : α → Parser β} (hf : ∀ a, (f a).Yields Q) :
    Yields (p >>= f) Q := yields_bind (yields_any p) fun a _ => hf a

theorem yields_throw {message : String} : Yields (throw message) P := by
  intro c a c' h; cases h

theorem yields_backtrack {message : String} : Yields (backtrack message) P := by
  intro c a c' h; cases h

/-- Where `pre` holds of the characters ahead, every value the parser answers with has the
property. -/
def YieldsFrom (pre : List Char → Prop) (p : Parser α) (P : α → Prop) : Prop :=
  ∀ c a c', pre c.rest → p c = (.ok a, c') → P a

theorem Yields.from {p : Parser α} (h : p.Yields P) : p.YieldsFrom pre P :=
  fun c a c' _ hp => h c a c' hp

theorem YieldsFrom.mono {pre' : List Char → Prop} {p : Parser α} (h : p.YieldsFrom pre P)
    (hpre : ∀ rest, pre' rest → pre rest) : p.YieldsFrom pre' P :=
  fun c a c' hc hp => h c a c' (hpre c.rest hc) hp

theorem yieldsFrom_bind {p : Parser α} {f : α → Parser β} (hp : p.YieldsFrom pre P)
    (hf : ∀ a, P a → (f a).Yields Q) : (p >>= f).YieldsFrom pre Q := by
  intro c b c' hpre h
  change andThen p f c = _ at h
  unfold andThen at h
  split at h
  · rename_i a c₁ ha
    exact hf a (hp c a c₁ hpre ha) c₁ b c' h
  · cases h

/-- Looking at the next character does not move. -/
theorem yieldsFrom_peek {f : Option Char → Parser β}
    (hf : ∀ rest, pre rest → (f rest.head?).YieldsFrom (· = rest) Q) :
    (peek >>= f).YieldsFrom pre Q :=
  fun c b c' hpre h => hf c.rest hpre c b c' rfl h

/-- The next character, if there is one, is not white space. -/
def NotBlank (rest : List Char) : Prop := ∀ c ∈ rest.head?, Scan.isSpace c = false

theorem takeWhile_apply (p : Char → Bool) (c : Cursor) :
    takeWhile p c =
      (.ok (c.rest.takeWhile p), ⟨c.location + (c.rest.takeWhile p).length,
        c.rest.dropWhile p⟩) := by
  have hdrop : c.rest.drop (c.rest.takeWhile p).length = c.rest.dropWhile p := by
    have hsplit := List.takeWhile_append_dropWhile (p := p) (l := c.rest)
    calc c.rest.drop (c.rest.takeWhile p).length
        = (c.rest.takeWhile p ++ c.rest.dropWhile p).drop (c.rest.takeWhile p).length := by
          rw [hsplit]
      _ = c.rest.dropWhile p := List.drop_left
  rw [← hdrop]
  rfl

theorem skipSpaces_apply (c : Cursor) :
    skipSpaces c =
      (.ok (), ⟨c.location + (c.rest.takeWhile Scan.isSpace).length,
        c.rest.dropWhile Scan.isSpace⟩) := by
  unfold skipSpaces
  change andThen (takeWhile Scan.isSpace) (fun _ => succeed ()) c = _
  rw [andThen, takeWhile_apply]
  rfl

theorem yields_skipSpaces {f : Unit → Parser β} (hf : (f ()).YieldsFrom NotBlank Q) :
    (skipSpaces >>= f).Yields Q := by
  intro c b c' h
  change andThen skipSpaces f c = _ at h
  rw [andThen, skipSpaces_apply] at h
  refine hf _ b c' (fun x hx => ?_) h
  have hstop := List.head?_dropWhile_not Scan.isSpace c.rest
  rw [Option.mem_def.mp hx] at hstop
  simpa using hstop

theorem yields_literal (s : String) : (literal s).Yields (· = s) := by
  intro c a c' h
  unfold literal at h
  split at h
  · cases h; rfl
  · cases h

/-- The answer of a choice is the answer of one of its alternatives. -/
theorem yields_choice {ps : List (Parser α)} (h : ∀ p ∈ ps, p.Yields P) : (choice ps).Yields P := by
  have hafter : ∀ (last : Option Failure), (choiceAfter last ps).Yields P := by
    induction ps with
    | nil =>
      intro last c a c' hp
      cases last <;> cases hp
    | cons p ps ih =>
      intro last c a c' hp
      unfold choiceAfter at hp
      split at hp
      · rename_i b c₁ hb
        cases hp
        exact h p List.mem_cons_self c a c' hb
      · cases hp
      · exact ih (fun q hq => h q (List.mem_cons_of_mem p hq)) _ c a c' hp
  exact hafter none

theorem yields_optional {p : Parser α} (h : p.Yields P) :
    (optional p).Yields fun o => ∀ a, o = some a → P a := by
  refine yields_choice fun q hq => ?_
  simp only [List.mem_cons, List.not_mem_nil, or_false] at hq
  rcases hq with rfl | rfl
  · exact yields_bind h fun a ha => yields_pure fun b hb => Option.some.inj hb ▸ ha
  · exact yields_pure (by simp)

end Parser

/-! ## The reader -/

namespace Read

open ValueGrammar.Parser Grammar

theorem takeWhile_yields (p : Char → Bool) :
    (Parser.takeWhile p).Yields fun cs => ∀ c ∈ cs, p c = true := by
  intro c cs c' h
  cases h
  exact List.all_eq_true.mp (List.all_takeWhile (p := p))

theorem name_yields : name.Yields fun n => ∀ c ∈ n.toList, isNameChar c = true :=
  yields_bind (takeWhile_yields isNameChar) fun cs hcs => yields_pure (by simpa using hcs)

/-- A name that is not empty, then whatever is made of it. -/
theorem yields_name {f empty : String → Parser Grammar} {P : Grammar → Prop}
    (hempty : ∀ n, (empty n).Yields P) (hf : ∀ n, IsName n → (f n).Yields P) :
    (name >>= fun n => if n.isEmpty then empty n else f n).Yields P := by
  refine yields_bind name_yields fun n hn => ?_
  split
  · exact hempty n
  · rename_i hne
    exact hf n ⟨by simpa using hne, hn⟩

theorem int_yields : int.Yields (· ≤ maxInt) := by
  intro c n c' h
  unfold int at h
  split at h
  · cases h
  · simp only at h
    split at h
    · cases h; assumption
    · cases h

theorem repetition_yields : repetition.Yields fun limits => IsLimits limits.1 limits.2 := by
  unfold repetition
  refine yields_then fun _ => yields_bind int_yields fun lo hlo => yields_then fun next => ?_
  extract_lets close
  -- whichever way the upper limit was written, what comes after it compares the two limits
  have hclose : ∀ hi : Option Nat, (∀ n, hi = some n → n ≤ maxInt) →
      (close hi).Yields fun limits => IsLimits limits.1 limits.2 := by
    intro hi hmax
    refine yields_then fun _ => ?_
    split
    · exact yields_pure ⟨⟨lo, rfl, hlo⟩, fun hi h => by (cases h)⟩
    · rename_i n
      split
      · exact yields_throw
      · split
        · exact yields_throw
        · refine yields_pure ⟨⟨lo, rfl, hlo⟩, fun hi h => ?_⟩
          cases h
          exact ⟨n, rfl, hmax n rfl, by simp only; omega, by omega⟩
  have hsame : (close (some lo)).Yields fun limits => IsLimits limits.1 limits.2 :=
    hclose (some lo) fun n hn => by cases hn; exact hlo
  split
  · refine yields_then fun _ => yields_then fun next => ?_
    split
    · exact hclose none (by simp)
    · refine yields_bind (yields_bind int_yields fun n hn => ?_) hclose
      exact yields_pure fun m hm => by cases hm; exact hn
  · exact hsame

theorem multiplier_yields {t : Grammar} (h : Written t) : (multiplier t).Yields Written := by
  have hrep : ∀ separated, Yields (repetition >>= fun limits =>
      pure (Grammar.multiplier t limits.1 limits.2 separated)) Written := by
    intro separated
    exact yields_bind repetition_yields fun limits hl => yields_pure (.multiplier h hl)
  have hopen : ∀ (lo : Nat) separated, lo ≤ maxInt →
      Written (Grammar.multiplier t lo none separated) :=
    fun lo separated hlo => .multiplier h ⟨⟨lo, rfl, hlo⟩, by simp⟩
  unfold multiplier
  refine yields_then fun next => ?_
  split
  · refine yields_then fun _ => yields_pure (.multiplier h ⟨⟨0, rfl, by decide⟩, fun hi hh => ?_⟩)
    cases hh
    exact ⟨1, rfl, by decide, by decide, by decide⟩
  · exact yields_then fun _ => yields_pure (hopen 0 false (by decide))
  · exact yields_then fun _ => yields_pure (hopen 1 false (by decide))
  · refine yields_then fun _ => yields_then fun next => ?_
    split
    · exact hrep true
    · exact yields_pure (hopen 1 true (by decide))
  · exact hrep false
  · exact yields_backtrack

theorem multipliers_yields (fuel : Nat) {t : Grammar} (h : Written t) :
    (multipliers fuel t).Yields Written := by
  induction fuel generalizing t with
  | zero => exact yields_pure h
  | succ fuel ih =>
      intro c g c' hm
      unfold multipliers at hm
      split at hm
      · rename_i wrapped c₁ hw
        exact ih (multiplier_yields h c wrapped c₁ hw) c₁ g c' hm
      · cases hm
      · cases hm; exact h

theorem throwAt_yields {α : Type} {P : α → Prop} {start : Cursor} {message : String} :
    (throwAt start message : Parser α).Yields P :=
  yields_then fun _ => yields_throw

/-- Whatever is written for it, the bound of a range is a number. -/
theorem bound_yields (missing : Binary64) (h : missing.IsBound) :
    (bound missing).Yields Binary64.IsBound := by
  unfold bound
  refine yields_then fun start => ?_
  split
  · exact yields_pure h
  · exact yields_pure h
  · refine yields_then fun sign => ?_
    extract_lets signed
    have hsigned : ∀ v : Binary64, v.IsBound → (signed v).IsBound := by
      intro v hv
      simp only [signed]
      split
      · exact hv.neg
      · exact hv
    refine yields_then fun next => ?_
    split
    · exact yields_then fun _ => yields_pure (hsigned _ trivial)
    · refine yields_then fun word => ?_
      split
      · exact yields_pure (hsigned _ trivial)
      · refine yields_bind (takeWhile_yields _) fun digits hdigits => ?_
        split
        · exact throwAt_yields
        · split
          · rename_i v hv
            have hplain : Numeral.Plain digits := by
              intro c hc
              simpa using hdigits c hc
            obtain ⟨m, rfl, hm⟩ := hplain.isMagnitude hv
            exact yields_pure (hsigned _ hm)
          · exact throwAt_yields

theorem range_yields : range.Yields Range.Written := by
  unfold range
  refine yields_then fun _ => yields_then fun _ => ?_
  refine yields_bind (bound_yields .negInf trivial) fun lo hlo => ?_
  refine yields_then fun _ => yields_then fun _ => yields_then fun _ => ?_
  refine yields_bind (bound_yields .posInf trivial) fun hi hhi => ?_
  refine yields_then fun _ => yields_then fun _ => ?_
  split
  · rename_i hle
    exact yields_pure ⟨hlo, hhi, hle⟩
  · exact yields_throw

theorem typeReference_yields : typeReference.Yields Written := by
  unfold typeReference
  refine yields_name (fun _ => yields_throw) fun n hn => ?_
  refine yields_bind (yields_optional (yields_literal "()")) fun parens hparens => ?_
  extract_lets full
  have hp : parens.getD "" = "" ∨ parens.getD "" = "()" := by
    cases parens with
    | none => exact .inl rfl
    | some s => exact .inr (hparens s rfl)
  refine yields_then fun _ => yields_then fun next => ?_
  split
  · refine yields_bind range_yields fun r hr => yields_pure (.type hn hp fun r' hr' => ?_)
    cases hr'
    exact hr
  · exact yields_pure (.type hn hp (by simp))

theorem propertyReference_yields : propertyReference.Yields Written := by
  unfold propertyReference
  refine yields_then fun _ => yields_name (fun _ => yields_throw) fun n hn => ?_
  exact yields_then fun _ => yields_pure (.property hn)

theorem reference_yields : reference.Yields Written := by
  unfold reference
  refine yields_then fun _ => yields_then fun _ => yields_then fun next => ?_
  extract_lets close
  have hclose : ∀ g, Written g → (close g).Yields Written :=
    fun g hg => yields_then fun _ => yields_then fun _ => yields_pure hg
  split
  · exact yields_bind propertyReference_yields hclose
  · exact yields_bind typeReference_yields hclose

theorem atKeyword_yields : atKeyword.Yields Written := by
  unfold atKeyword
  refine yields_then fun _ => yields_name (fun _ => yields_throw) fun n hn => ?_
  exact yields_pure (.atKeyword hn)

theorem stringLength?_cons {quote c : Char} (h : c ≠ '\\') (r : List Char) :
    stringLength? quote (c :: r) =
      if c = quote then some 1 else (stringLength? quote r).map (· + 1) := by
  rw [stringLength?]
  · intro hc _; exact h hc
  · intro _ _ hc _; exact h hc

/-- A string literal ends at its own closing quote, whatever comes after it. -/
theorem stringLength?_take_append {quote : Char} {cs : List Char} {n : Nat}
    (h : stringLength? quote cs = some n) :
    n ≤ cs.length ∧ ∀ rest, stringLength? quote (cs.take n ++ rest) = some n := by
  -- a character that is not a backslash is read the same way before any text
  have hplain : ∀ (c : Char) (r : List Char), (c = '\\' → r = [] → False) →
      (∀ x r', c = '\\' → r = x :: r' → False) → c ≠ '\\' := by
    rintro c r hnil hcons rfl
    cases r with
    | nil => exact hnil rfl rfl
    | cons x r => exact hcons x r rfl rfl
  fun_induction stringLength? quote cs generalizing n with
  | case1 => cases h
  | case2 => cases h
  | case3 x r ih =>
    obtain ⟨k, hk, rfl⟩ := Option.map_eq_some_iff.mp h
    obtain ⟨hle, htake⟩ := ih hk
    refine ⟨by simpa using hle, fun rest => ?_⟩
    rw [List.take_succ_cons, List.take_succ_cons, List.cons_append, List.cons_append,
      stringLength?, htake]
    rfl
  | case4 r hnil hcons =>
    cases h
    refine ⟨by simp, fun rest => ?_⟩
    rw [List.take_succ_cons, List.cons_append, stringLength?_cons (hplain _ _ hnil hcons),
      if_pos rfl]
  | case5 c r hnil hcons hc ih =>
    obtain ⟨k, hk, rfl⟩ := Option.map_eq_some_iff.mp h
    obtain ⟨hle, htake⟩ := ih hk
    refine ⟨by simpa using hle, fun rest => ?_⟩
    rw [List.take_succ_cons, List.cons_append, stringLength?_cons (hplain _ _ hnil hcons),
      if_neg hc, htake]
    rfl

theorem string_yields : string.YieldsFrom (fun rest => ∀ c ∈ rest.head?, c = '\'' ∨ c = '"')
    Written := by
  unfold string
  refine yieldsFrom_bind (P := fun c => c = '\'' ∨ c = '"') ?_ fun quote hq => ?_
  · intro c x c' hpre h
    obtain ⟨n, _ | ⟨y, r⟩⟩ := c
    · cases h
    · cases h
      exact hpre _ rfl
  · refine yields_then fun start => ?_
    split
    · rename_i n hn
      obtain ⟨hle, htake⟩ := stringLength?_take_append hn
      refine yields_then fun _ => yields_pure (.string hq ?_)
      simpa [Nat.min_eq_left hle] using htake []
    · exact yields_then fun _ => yields_throw

/-- A keyword or a function starts as the text does. -/
theorem keywordOrFunction_yields :
    keywordOrFunction.YieldsFrom (fun rest => ∀ c ∈ rest.head?, isNameStart c = true) Written := by
  unfold keywordOrFunction
  refine yieldsFrom_bind (P := fun n => (∀ c ∈ n.toList, isNameChar c = true) ∧
      ∀ c ∈ n.toList.head?, isNameStart c = true) ?_ fun n hn => ?_
  · intro c n c' hpre h
    refine ⟨name_yields c n c' h, fun x hx => hpre x ?_⟩
    cases h
    rw [String.toList_ofList] at hx
    obtain ⟨loc, _ | ⟨y, r⟩⟩ := c
    · cases hx
    · simp only [List.takeWhile_cons] at hx
      split at hx
      · exact hx
      · cases hx
  · split
    · exact yields_backtrack
    · rename_i hne
      have hword : IsWord n := ⟨⟨by simpa using hne, hn.1⟩, hn.2⟩
      refine yields_then fun next => ?_
      split
      · exact yields_then fun _ => yields_pure (.function hword)
      · exact yields_pure (.keyword hword)

theorem combinator_yields : combinator.Yields (· ∈ Combinator.looseToTight) := by
  unfold combinator
  refine yields_choice fun p hp => ?_
  have hsign : ∀ {α : Type} (q : Parser α) (c : Combinator), c ∈ Combinator.looseToTight →
      ((fun _ => c) <$> q).Yields (· ∈ Combinator.looseToTight) :=
    fun q c hc => yields_then fun _ => yields_pure hc
  simp only [List.mem_cons, List.not_mem_nil, or_false] at hp
  rcases hp with rfl | rfl | rfl | rfl
  · exact hsign _ .all (by decide)
  · exact hsign _ .any (by decide)
  · exact hsign _ .one (by decide)
  · refine yields_then fun next => ?_
    split
    · exact yields_throw
    · exact yields_pure (by decide)

section nested

variable {group : Parser Grammar} (hg : group.Yields Written)

include hg

theorem primaryWith_yields : (primaryWith group).YieldsFrom NotBlank Written := by
  unfold primaryWith
  refine yieldsFrom_peek fun rest hblank => ?_
  cases rest with
  | nil => exact yields_throw.from
  | cons c r =>
    have hspace : Scan.isSpace c = false := hblank c rfl
    simp only [List.head?_cons]
    split_ifs with hgroup href hquote hat hcomma hstart hbad
    · exact hg.from
    · exact reference_yields.from
    · refine string_yields.mono ?_
      rintro _ rfl x ⟨⟩
      simpa using hquote
    · exact atKeyword_yields.from
    · exact (yields_then fun _ => yields_pure .comma).from
    · refine keywordOrFunction_yields.mono ?_
      rintro _ rfl x ⟨⟩
      exact hstart
    · exact yields_throw.from
    · refine (yields_then fun _ => yields_pure (.token ⟨hspace, by simpa using hstart, ?_⟩)).from
      simp_all

theorem termWith_yields : (termWith group).YieldsFrom NotBlank Written := by
  unfold termWith
  exact yieldsFrom_bind (primaryWith_yields hg) fun t ht =>
    yields_then fun _ => multipliers_yields _ ht

/-- Every further term is written. The induction is on the number of terms allowed. -/
theorem moreTerms_yields (fuel : Nat) :
    (moreTerms (termWith group) fuel).Yields fun tail =>
      ∀ ct ∈ tail, ct.1 ∈ Combinator.looseToTight ∧ Written ct.2 := by
  induction fuel with
  | zero => exact yields_pure (by simp)
  | succ fuel ih =>
      unfold moreTerms
      refine yields_then fun _ => yields_then fun next => ?_
      split
      · exact yields_pure (by simp)
      · exact yields_pure (by simp)
      · refine yields_bind combinator_yields fun c hc => yields_skipSpaces ?_
        refine yieldsFrom_bind (termWith_yields hg) fun t ht => yields_bind ih fun tail htail => ?_
        refine yields_pure fun ct hct => ?_
        rcases List.mem_cons.mp hct with rfl | hct
        · exact ⟨hc, ht⟩
        · exact htail ct hct

/-- The contents of a group are a row of terms. -/
theorem contentsWith_yields (bracketed : Bool) :
    (contentsWith group bracketed).YieldsFrom NotBlank fun g =>
      ∃ row : Row, row.Joined ∧ (∀ t ∈ row.terms, Written t) ∧ g = row.toGroup bracketed := by
  unfold contentsWith
  refine yieldsFrom_bind (termWith_yields hg) fun head hhead => yields_then fun cur => ?_
  refine yields_bind (moreTerms_yields hg _) fun tail htail => yields_pure ?_
  refine ⟨⟨head, tail⟩, fun ct hct => (htail ct hct).1, fun t ht => ?_, rfl⟩
  rcases List.mem_cons.mp ht with rfl | ht
  · exact hhead
  · obtain ⟨ct, hct, rfl⟩ := List.mem_map.mp ht
    exact (htail ct hct).2

end nested

/-- Bracketed groups are written. The induction is on how deep they may nest. -/
theorem groupWithin_yields (depth : Nat) : (groupWithin depth).Yields Written := by
  induction depth with
  | zero => exact yields_throw
  | succ depth ih =>
      unfold groupWithin
      refine yields_then fun _ => yields_skipSpaces (yieldsFrom_peek fun rest hblank => ?_)
      split
      · exact yields_throw.from
      · refine yieldsFrom_bind (P := fun g => ∃ row : Row, row.Joined ∧
            (∀ t ∈ row.terms, Written t) ∧ g = row.toGroup true) ?_ fun g hg => ?_
        · refine (contentsWith_yields ih true).mono ?_
          rintro _ rfl
          exact hblank
        · obtain ⟨row, hj, hterms, rfl⟩ := hg
          refine yields_then fun _ => yields_then fun _ => yields_then fun after => ?_
          split
          · exact yields_then fun _ => yields_pure (.nonEmpty hj hterms)
          · exact yields_pure (.group hj hterms)

theorem group_yields : group.Yields Written :=
  fun c g c' h => groupWithin_yields (c.rest.length + 1) c g c' h

theorem definition_yields : definition.Yields IsDefinition := by
  unfold definition
  refine yields_skipSpaces (yieldsFrom_bind (contentsWith_yields group_yields false) fun g hg => ?_)
  obtain ⟨row, hj, hterms, rfl⟩ := hg
  refine yields_then fun _ => yields_then fun next => ?_
  split
  · exact yields_throw
  · exact yields_pure ⟨row, hj, hterms, rfl⟩

end Read

/-- **A grammar that was read is a definition.** -/
theorem Grammar.isDefinition_of_parse {source : String} {g : Grammar}
    (h : Grammar.parse source = .ok g) : g.IsDefinition := by
  unfold Grammar.parse at h
  split at h
  · rename_i g' hd
    cases h
    exact Read.definition_yields (Cursor.start source.toList) g
      (Read.definition (Cursor.start source.toList)).2 (Prod.ext hd rfl)
  · cases h
  · cases h

end ValueGrammar

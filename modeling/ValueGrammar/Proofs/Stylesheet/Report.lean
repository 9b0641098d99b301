import ValueGrammar.Proofs.Stylesheet.Rules
import ValueGrammar.Proofs.Views
import ValueGrammar.Stylesheet.Report

/-!
# `ValueGrammar.Proofs.Stylesheet.Report` — what is reported about a stylesheet

Checking a declaration compiles grammars, but without a fault it does not change what references stand
for. So what is reported about a declaration depends on it and on the rules it stands in, and on
nothing that was validated before. This gives the report of any events, declaration by declaration, and
shows that stylesheets one after the other are reported on one after the other.

## Contents
- `Dictionary.Observes`: operations that see of a dictionary only what references stand for.
- `Checker.observes_checkProperty`: checking a declaration is one.
- `Event.issue?`, `Report.of`: what is reported about one event, and about all of them.
- `Validation.report_step`, `Validation.Reads`: one step, and a validation under way.
- `Checker.validateEvents_append`: the report of a stylesheet.
-/

namespace ValueGrammar

/-! ## Checks -/

namespace Dictionary

variable {s : Settings} {d d' : Dictionary} {α β : Type}

/-- An operation on dictionaries that sees only what references stand for, and does not change that
unless it ends in a fault. -/
structure Observes (s : Settings) (f : Dictionary → Except Error α × Dictionary) : Prop where
  congr : ∀ {d d'}, d'.resolve s = d.resolve s → (f d').1 = (f d).1
  keeps : ∀ {d}, (∀ e, (f d).1 = .error e → e.fault? = none) → (f d).2.resolve s = d.resolve s

/-- One operation and then another, unless the first one fails. -/
def andThen (f : Dictionary → Except Error α × Dictionary)
    (g : α → Dictionary → Except Error β × Dictionary) (d : Dictionary) :
    Except Error β × Dictionary :=
  match f d with
  | (.ok a, d') => g a d'
  | (.error e, d') => (.error e, d')

theorem Observes.of_eq {f g : Dictionary → Except Error α × Dictionary} (h : Observes s f)
    (heq : ∀ d, g d = f d) : Observes s g := by
  rw [funext heq]
  exact h

theorem observes_answer (answer : Except Error α) : Observes s fun d => (answer, d) :=
  ⟨fun _ => rfl, fun _ => rfl⟩

theorem observes_lookup (r : Reference) : Observes s fun d => (d.resolve s r, d.touch s r) :=
  ⟨fun h => congrFun h r, fun h => resolve_touch h⟩

theorem Observes.andThen {f : Dictionary → Except Error α × Dictionary}
    {g : α → Dictionary → Except Error β × Dictionary} (hf : Observes s f)
    (hg : ∀ a, Observes s (g a)) : Observes s (andThen f g) := by
  -- the second operation starts with what the first one keeps
  have hkeeps : ∀ {d a d'}, f d = (.ok a, d') → d'.resolve s = d.resolve s := by
    intro d a d' hd
    have hkept := hf.keeps (d := d) fun e he => by
      rw [hd] at he
      cases he
    rwa [hd] at hkept
  constructor
  · intro d d' h
    have hsame := hf.congr h
    unfold Dictionary.andThen
    cases hd : f d with
    | mk answer after =>
        cases hd' : f d' with
        | mk answer' after' =>
            rw [hd, hd'] at hsame
            cases hsame
            cases answer with
            | error e => rfl
            | ok a => exact (hg a).congr ((hkeeps hd').trans (h.trans (hkeeps hd).symm))
  · intro d h
    unfold Dictionary.andThen at h ⊢
    cases hd : f d with
    | mk answer after =>
        rw [hd] at h
        cases answer with
        | error e =>
            have hkept := hf.keeps (d := d) fun e' he' => h e' (by rw [hd] at he'; cases he'; rfl)
            rwa [hd] at hkept
        | ok a => exact ((hg a).keeps h).trans (hkeeps hd)

end Dictionary

namespace Checker

open Dictionary

variable {c : Checker} {s : Settings} {name : String} {tokens : List Token} {g : Graph}

/-- The grammar that a reference stands for, or else what another operation finds. -/
def findOr (s : Settings) (r : Reference) (other : Dictionary → Except Error Graph × Dictionary)
    (d : Dictionary) : Except Error Graph × Dictionary :=
  match d.resolve s r with
  | .error e => (.error e, d.touch s r)
  | .ok (some g) => (.ok g, d.touch s r)
  | .ok none => other (d.touch s r)

theorem observes_findOr {other : Dictionary → Except Error Graph × Dictionary}
    (h : Observes s other) (r : Reference) : Observes s (findOr s r other) := by
  let next : Option Graph → Dictionary → Except Error Graph × Dictionary
    | some g, d => (.ok g, d)
    | none, d => other d
  have hnext : ∀ found, Observes s (next found) := by
    intro found
    cases found with
    | some g => exact observes_answer (.ok g)
    | none => exact h
  refine ((observes_lookup r).andThen hnext).of_eq fun d => ?_
  simp only [findOr, andThen]
  cases d.resolve s r with
  | error e => rfl
  | ok found => cases found <;> rfl

theorem observes_propertyGraph (s : Settings) (name : String) :
    Observes s fun d => propertyGraph s d name := by
  let r : Reference := ⟨.property, Text.lower name⟩
  let base := (PropertyName.vendorPrefix (Text.lower name)).2
  let unknown (d : Dictionary) : Except Error Graph × Dictionary :=
    (.error (.unknownProperty (Text.lower name)), d)
  have hunknown : Observes s unknown := observes_answer _
  by_cases hcustom : PropertyName.isCustom name = true
  · simp only [propertyGraph, hcustom, if_true]
    exact observes_answer _
  · simp only [propertyGraph, hcustom, Bool.false_eq_true, if_false]
    by_cases hbase : base = Text.lower name
    · refine (observes_findOr hunknown r).of_eq fun d => ?_
      simp only [findOr, r]
      cases d.resolve s ⟨.property, Text.lower name⟩ with
      | error e => rfl
      | ok found =>
          cases found with
          | some g => rfl
          | none => exact if_pos hbase
    · refine (observes_findOr (observes_findOr hunknown ⟨.property, base⟩) r).of_eq fun d => ?_
      simp only [findOr, r]
      cases d.resolve s ⟨.property, Text.lower name⟩ with
      | error e => rfl
      | ok found =>
          cases found with
          | some g => rfl
          | none => exact if_neg hbase

/-- The answer of a check, and the dictionary after it. -/
def outcome (r : Reply) : Except Error Verdict × Dictionary := (r.answer, r.dictionary)

theorem observes_checkGraph (c : Checker) (s : Settings) (tokens : List Token) (g : Graph) :
    Observes s fun d => outcome (c.checkGraph s d tokens g) := by
  constructor
  · intro d d' h
    exact congrArg (Except.map (judge tokens g)) (Matcher.runWith_congr h)
  · intro d h
    refine Matcher.resolve_runWith fun e he => h e ?_
    show Except.map (judge tokens g) (c.matcher.runWith s d tokens g).1 = _
    rw [he]
    rfl

theorem observes_checkTokens (c : Checker) (s : Settings) (tokens : List Token) (g : Graph)
    (cssWide : Bool) : Observes s fun d => outcome (c.checkTokens s d tokens g cssWide) := by
  unfold checkTokens
  by_cases hvar : usesVar tokens = true
  · simp only [hvar, if_true]
    exact observes_answer _
  · simp only [hvar, Bool.false_eq_true, if_false]
    cases cssWide with
    | false => exact observes_checkGraph c s tokens g
    | true =>
        -- the keywords of all properties are tried first, and then the grammar
        let second (v : Verdict) (d : Dictionary) : Except Error Verdict × Dictionary :=
          if v.mismatch.isNone then (.ok v, d) else outcome (c.checkGraph s d tokens g)
        have hsecond : ∀ v, Observes s (second v) := by
          intro v
          by_cases hv : v.mismatch.isNone = true
          · simp only [second, hv, if_true]
            exact observes_answer _
          · simp only [second, hv, Bool.false_eq_true, if_false]
            exact observes_checkGraph c s tokens g
        refine ((observes_checkGraph c s tokens c.cssWide).andThen hsecond).of_eq fun d => ?_
        simp only [if_true, andThen, outcome, second]
        generalize c.checkGraph s d tokens c.cssWide = first
        obtain ⟨answer, logs, d'⟩ := first
        cases answer with
        | error e => rfl
        | ok v =>
            simp only
            split <;> rfl

/-- **Checking a declaration** sees of the dictionary only what references stand for, and keeps it. -/
theorem observes_checkProperty (c : Checker) (s : Settings) (name : String) (tokens : List Token) :
    Observes s fun d => outcome (c.checkProperty s d name tokens) := by
  refine ((observes_propertyGraph s name).andThen fun g =>
    observes_checkTokens c s tokens g true).of_eq fun d => ?_
  simp only [checkProperty, andThen]
  generalize propertyGraph s d name = found
  obtain ⟨answer, d'⟩ := found
  cases answer <;> rfl

end Checker

/-! ## What is reported -/

namespace Event

/-- What is reported about an event, as if nothing was validated before. -/
def issue? (c : Checker) (s : Settings) (d : Dictionary) (selector : String) : Event → Option Issue
  | .customProperty name value =>
    some ⟨.warning, selector, name, Text.trim value, .customProperty⟩
  | .declaration name values =>
    let tokens := Token.trimImportant values
    match Validation.rejection (c.checkProperty s d name tokens).answer with
    | none => none
    | some e =>
      if e.fault?.isSome then none
      else some ⟨.ofError e, selector, name, Token.joined tokens, e⟩
  | _ => none

theorem selector_of_issue? {c : Checker} {s : Settings} {d : Dictionary} {selector : String}
    {e : Event} {i : Issue} (h : e.issue? c s d selector = some i) : i.selector = selector := by
  cases e with
  | customProperty => cases h; rfl
  | declaration name values =>
      simp only [issue?] at h
      split at h
      · cases h
      · split at h
        · cases h
        · cases h
          rfl
  | _ => cases h

theorem declares_of_issue? {c : Checker} {s : Settings} {d : Dictionary} {selector : String}
    {e : Event} {i : Issue} (h : e.issue? c s d selector = some i) : e.declares = true := by
  cases e with
  | customProperty | declaration => rfl
  | _ => cases h

end Event

namespace Report

variable {c : Checker} {s : Settings} {d : Dictionary} {es : List Event} {e : Event}

/-- One more event, and what is reported about it. -/
def add (r : Report) (e : Event) (issue? : Option Issue) : Report where
  declarations := r.declarations + if e.declares then 1 else 0
  issues := r.issues ++ issue?.toList

/-- What is reported about the event at a place, in the rules that are open there. -/
def issueAt (c : Checker) (s : Settings) (d : Dictionary) (es : List Event) (place : Nat) :
    Option Issue :=
  es[place]?.bind (Event.issue? c s d (Event.selectorIn (es.take place)))

/-- The number of declarations, and what is reported about each event, in order. -/
def of (c : Checker) (s : Settings) (d : Dictionary) (es : List Event) : Report where
  declarations := es.countP Event.declares
  issues := (List.range es.length).filterMap (issueAt c s d es)

theorem of_concat (es : List Event) (e : Event) :
    of c s d (es ++ [e]) =
      (of c s d es).add e (e.issue? c s d (Event.selectorIn es)) := by
  have hold : (List.range es.length).filterMap (issueAt c s d (es ++ [e])) =
      (List.range es.length).filterMap (issueAt c s d es) := by
    refine List.filterMap_congr fun place hplace => ?_
    rw [List.mem_range] at hplace
    unfold issueAt
    rw [List.getElem?_append_left hplace, List.take_append_of_le_length (Nat.le_of_lt hplace)]
  have hnew : issueAt c s d (es ++ [e]) es.length = e.issue? c s d (Event.selectorIn es) := by
    unfold issueAt
    rw [List.getElem?_concat_length, List.take_left]
    rfl
  unfold of add
  rw [List.length_append, List.length_singleton, List.range_succ, List.filterMap_append, hold,
    List.countP_append, List.countP_singleton]
  congr 2
  rw [List.filterMap_cons, hnew]
  cases e.issue? c s d (Event.selectorIn es) <;> rfl

/-- There is at most one issue for each declaration. -/
theorem length_issues_of_le (es : List Event) :
    (of c s d es).issues.length ≤ (of c s d es).declarations := by
  induction es using List.reverseRecOn with
  | nil => exact Nat.le_refl 0
  | append_singleton es e ih =>
      rw [of_concat]
      show ((of c s d es).issues ++ _).length ≤ (of c s d es).declarations + _
      rw [List.length_append]
      cases hissue : e.issue? c s d (Event.selectorIn es) with
      | none => simpa using Nat.le_add_right_of_le ih
      | some i =>
          rw [Event.declares_of_issue? hissue]
          exact Nat.add_le_add_right ih 1

end Report

/-! ## Validating -/

namespace Validation

variable {c : Checker} {s : Settings} {d : Dictionary} {v w : Validation} {es : List Event}
  {e : Event}

/-! ### One step -/

/-- What a step checks: a declaration, where only a fault is an error. -/
def check (c : Checker) (s : Settings) (e : Event) (d : Dictionary) :
    Except Error Unit × Dictionary :=
  match e with
  | .declaration name values =>
    let reply := c.checkProperty s d name (Token.trimImportant values)
    match (rejection reply.answer).filter (·.fault?.isSome) with
    | some f => (.error f, reply.dictionary)
    | none => (.ok (), reply.dictionary)
  | _ => (.ok (), d)

/-- A step checks its event, whatever else it does. -/
theorem step_eq_check (c : Checker) (s : Settings) (v : Validation) (e : Event) :
    ((step c s v e).1, (step c s v e).2.dictionary) = check c s e v.dictionary := by
  cases e with
  | declaration name values =>
      simp only [step, declare, check]
      cases rejection (c.checkProperty s v.dictionary name (Token.trimImportant values)).answer with
      | none => rfl
      | some f => cases hf : f.fault?.isSome <;> simp [hf, Option.filter, addIssue]
  | _ => rfl

theorem report_step (c : Checker) (s : Settings) (v : Validation) (e : Event) :
    (step c s v e).2.report = v.report.add e (e.issue? c s v.dictionary v.selector) := by
  cases e with
  | declaration name values =>
      simp only [step, declare, Event.issue?]
      cases rejection (c.checkProperty s v.dictionary name (Token.trimImportant values)).answer with
      | none => simp [Report.add, countDeclaration, Event.declares]
      | some f =>
          cases hf : f.fault?.isSome <;>
            simp [hf, Report.add, countDeclaration, addIssue, Event.declares, selector]
  | customProperty => rfl
  | _ => simp [step, Report.add, Event.issue?, Event.declares, openRule, closeRule]

theorem selectors_declare (c : Checker) (s : Settings) (v : Validation) (name : String)
    (values : List Token) :
    (declare c s v name values).2.selectors = v.selectors ∧
      (declare c s v name values).2.group = v.group := by
  unfold declare
  simp only
  split
  · exact ⟨rfl, rfl⟩
  · split <;> exact ⟨rfl, rfl⟩

theorem issue?_congr {d' : Dictionary} (h : d'.resolve s = d.resolve s) (selector : String)
    (e : Event) : e.issue? c s d' selector = e.issue? c s d selector := by
  cases e with
  | declaration name values =>
      have hsame : (c.checkProperty s d' name (Token.trimImportant values)).answer =
          (c.checkProperty s d name (Token.trimImportant values)).answer :=
        (Checker.observes_checkProperty c s name _).congr h
      simp only [Event.issue?]
      rw [hsame]
  | _ => rfl

/-- A step sees of the dictionary only what references stand for, and keeps it. -/
theorem observes_check (c : Checker) (s : Settings) (e : Event) :
    Dictionary.Observes s (check c s e) := by
  cases e with
  | declaration name values =>
      have hobserves := Checker.observes_checkProperty c s name (Token.trimImportant values)
      constructor
      · intro d d' h
        have hsame : (c.checkProperty s d' name (Token.trimImportant values)).answer =
            (c.checkProperty s d name (Token.trimImportant values)).answer := hobserves.congr h
        simp only [check]
        rw [hsame]
        split <;> rfl
      · intro d h
        -- a fault of the check would be the error of the step
        have hclean : ∀ f, (c.checkProperty s d name (Token.trimImportant values)).answer = .error f →
            f.fault? = none := by
          intro f hf
          by_contra hfault
          refine hfault (h f ?_)
          have hsome : f.fault?.isSome = true := Option.isSome_iff_ne_none.mpr hfault
          simp only [check]
          rw [hf]
          simp [rejection, Option.filter, hsome]
        have hkept : (c.checkProperty s d name (Token.trimImportant values)).dictionary.resolve s =
            d.resolve s := hobserves.keeps hclean
        simp only [check]
        split <;> exact hkept
  | _ => exact Dictionary.observes_answer _

theorem resolve_step (h : (step c s v e).1 = .ok ()) :
    (step c s v e).2.dictionary.resolve s = v.dictionary.resolve s := by
  have heq := step_eq_check c s v e
  have hkept := (observes_check c s e).keeps (d := v.dictionary) fun f hf => by
    rw [← heq] at hf
    rw [show (step c s v e).1 = .error f from hf] at h
    cases h
  rwa [← heq] at hkept

/-! ### All steps -/

instance : (answer : Except Error Unit) → Decidable (answer = .ok ())
  | .ok () => .isTrue rfl
  | .error _ => .isFalse nofun

theorem steps_cons_of_ok (h : (step c s v e).1 = .ok ()) (es : List Event) :
    steps c s v (e :: es) = steps c s (step c s v e).2 es := by
  rw [steps]
  generalize step c s v e = r at h
  obtain ⟨_, _⟩ := r
  cases h
  rfl

theorem steps_cons_of_not_ok (h : (step c s v e).1 ≠ .ok ()) (es : List Event) :
    steps c s v (e :: es) = step c s v e := by
  rw [steps]
  generalize step c s v e = r at h
  obtain ⟨answer, _⟩ := r
  cases answer with
  | ok => exact absurd rfl h
  | error => rfl

theorem steps_append (h : (steps c s v es).1 = .ok ()) (more : List Event) :
    steps c s v (es ++ more) = steps c s (steps c s v es).2 more := by
  induction es generalizing v with
  | nil => rfl
  | cons e es ih =>
      by_cases hok : (step c s v e).1 = .ok ()
      · rw [steps_cons_of_ok hok] at h ⊢
        rw [List.cons_append, steps_cons_of_ok hok]
        exact ih h
      · rw [steps_cons_of_not_ok hok] at h
        exact absurd h hok

theorem steps_append_of_not_ok (h : (steps c s v es).1 ≠ .ok ()) (more : List Event) :
    steps c s v (es ++ more) = steps c s v es := by
  induction es generalizing v with
  | nil => exact absurd rfl h
  | cons e es ih =>
      by_cases hok : (step c s v e).1 = .ok ()
      · rw [steps_cons_of_ok hok] at h ⊢
        rw [List.cons_append, steps_cons_of_ok hok]
        exact ih h
      · rw [List.cons_append, steps_cons_of_not_ok hok, steps_cons_of_not_ok hok]

/-! ### What was read -/

/-- What a validation has come to after some events: the report is that of the events, the selectors are
those of the rules that are open, and references stand for what they did. -/
structure Reads (c : Checker) (s : Settings) (d : Dictionary) (es : List Event) (v : Validation) :
    Prop where
  report : v.report = .of c s d es
  selectors : v.selectors = (Event.openRules es).map (Event.headOf es)
  group : v.group = Event.heads es
  resolve : v.dictionary.resolve s = d.resolve s

theorem reads_start (c : Checker) (s : Settings) (d : Dictionary) : Reads c s d [] (.start d) :=
  ⟨rfl, rfl, rfl, rfl⟩

theorem map_headOf_append (es : List Event) (e : Event) :
    (Event.openRules es).map (Event.headOf (es ++ [e])) =
      (Event.openRules es).map (Event.headOf es) :=
  List.map_congr_left fun _ hj => Event.headOf_append (Event.mem_openRules_iff.mp hj).1 e

theorem Reads.report_step (h : Reads c s d es v) (e : Event) :
    (step c s v e).2.report = .of c s d (es ++ [e]) := by
  rw [Validation.report_step, Report.of_concat, issue?_congr h.resolve, h.report, selector,
    h.selectors]
  rfl

theorem Reads.selectors_step (h : Reads c s d es v) (e : Event) :
    (step c s v e).2.selectors = (Event.openRules (es ++ [e])).map (Event.headOf (es ++ [e])) := by
  have hsame : e.begins = false → e.ends = false →
      v.selectors = (Event.openRules (es ++ [e])).map (Event.headOf (es ++ [e])) := by
    intro hbegins hends
    rw [Event.openRules_of_not_ends hends, hbegins, h.selectors]
    simp only [Bool.false_eq_true, if_false, List.append_nil]
    exact (map_headOf_append es e).symm
  have hopened : ∀ values, e.begins = true → e.headText? = some (Text.trim values) →
      (v.openRule values).selectors =
        (Event.openRules (es ++ [e])).map (Event.headOf (es ++ [e])) := by
    intro values hbegins htext
    rw [Event.openRules_of_not_ends (Event.ends_of_begins hbegins), if_pos hbegins, List.map_append,
      map_headOf_append, List.map_singleton, Event.headOf_next, htext, ← h.selectors, ← h.group]
    rfl
  have hclosed : e.ends = true → v.closeRule.selectors =
      (Event.openRules (es ++ [e])).map (Event.headOf (es ++ [e])) := by
    intro hends
    rw [Event.openRules_of_ends hends, List.map_dropLast, map_headOf_append, ← h.selectors]
    rfl
  cases e with
  | ignored | selector | customProperty => exact hsame rfl rfl
  | declaration name values => rw [step, (selectors_declare c s v name values).1, hsame rfl rfl]
  | beginRuleset | beginAtRule => exact hopened _ rfl rfl
  | endRuleset | endAtRule => exact hclosed rfl

theorem Reads.group_step (h : Reads c s d es v) (e : Event) :
    (step c s v e).2.group = Event.heads (es ++ [e]) := by
  by_cases hbegins : e.begins = true
  · rw [Event.heads_of_begins hbegins]
    cases e with
    | beginRuleset | beginAtRule => rfl
    | _ => cases hbegins
  · rw [Event.heads_of_not_begins (by simpa using hbegins), ← h.group]
    cases e with
    | selector => rfl
    | declaration name values =>
        rw [step, (selectors_declare c s v name values).2]
        exact (List.append_nil _).symm
    | beginRuleset | beginAtRule => exact absurd rfl hbegins
    | _ => exact (List.append_nil _).symm

theorem Reads.step (h : Reads c s d es v) (hok : (step c s v e).1 = .ok ()) :
    Reads c s d (es ++ [e]) (step c s v e).2 where
  report := h.report_step e
  selectors := h.selectors_step e
  group := h.group_step e
  resolve := (resolve_step hok).trans h.resolve

/-- **A validation reports on the events it reads**, which are all of them if there is no fault. The
induction is on the events that are left. -/
theorem Reads.steps (h : Reads c s d es v) (more : List Event) :
    ∃ n ≤ more.length, (steps c s v more).2.report = .of c s d (es ++ more.take n) ∧
      ((steps c s v more).1 = .ok () →
        n = more.length ∧ Reads c s d (es ++ more) (steps c s v more).2) := by
  induction more generalizing es v with
  | nil =>
      refine ⟨0, Nat.le_refl 0, ?_, fun _ => ⟨rfl, ?_⟩⟩
      · rw [List.take_nil, List.append_nil]
        exact h.report
      · rw [List.append_nil]
        exact h
  | cons e more ih =>
      have hsplit : es ++ e :: more = (es ++ [e]) ++ more := by
        rw [List.append_assoc]
        rfl
      by_cases hok : (Validation.step c s v e).1 = .ok ()
      · obtain ⟨n, hn, hreport, hall⟩ := ih (h.step hok)
        rw [steps_cons_of_ok hok]
        refine ⟨n + 1, Nat.succ_le_succ hn, ?_, fun hend => ?_⟩
        · rw [hreport, List.take_succ_cons, List.append_assoc]
          rfl
        · obtain ⟨rfl, hreads⟩ := hall hend
          exact ⟨rfl, hsplit ▸ hreads⟩
      · rw [steps_cons_of_not_ok hok]
        refine ⟨1, Nat.succ_le_succ (Nat.zero_le _), ?_, fun hend => absurd hend hok⟩
        exact h.report_step e

/-! ### One stylesheet after the other -/

/-- Two validations that differ only in what was reported before. -/
structure Beside (s : Settings) (before : Report) (v w : Validation) : Prop where
  declarations : v.report.declarations = before.declarations + w.report.declarations
  issues : v.report.issues = before.issues ++ w.report.issues
  selectors : v.selectors = w.selectors
  group : v.group = w.group
  resolve : v.dictionary.resolve s = w.dictionary.resolve s

variable {before : Report}

/-- After complete rules, validating goes on as if it had only begun. -/
theorem Reads.beside (h : Reads c s d es v) (hes : Event.Complete es) :
    Beside s v.report v (.start d) where
  declarations := rfl
  issues := (List.append_nil _).symm
  selectors := by
    rw [h.selectors, (Event.complete_iff.mp hes).1]
    rfl
  group := h.group.trans (Event.complete_iff.mp hes).2
  resolve := h.resolve

theorem Beside.fst_step (h : Beside s before v w) (e : Event) :
    (Validation.step c s v e).1 = (Validation.step c s w e).1 := by
  have hsame := (observes_check c s e).congr h.resolve
  rwa [← step_eq_check, ← step_eq_check] at hsame

theorem Beside.report_step (h : Beside s before v w) (e : Event) :
    (Validation.step c s v e).2.report.declarations =
        before.declarations + (Validation.step c s w e).2.report.declarations ∧
      (Validation.step c s v e).2.report.issues =
        before.issues ++ (Validation.step c s w e).2.report.issues := by
  have hselector : v.selector = w.selector := congrArg (String.intercalate " ") h.selectors
  rw [Validation.report_step, Validation.report_step, issue?_congr h.resolve, hselector]
  constructor
  · show v.report.declarations + _ = before.declarations + (w.report.declarations + _)
    rw [h.declarations, Nat.add_assoc]
  · show v.report.issues ++ _ = before.issues ++ (w.report.issues ++ _)
    rw [h.issues, List.append_assoc]

theorem Beside.selectors_step (h : Beside s before v w) (e : Event) :
    (Validation.step c s v e).2.selectors = (Validation.step c s w e).2.selectors ∧
      (Validation.step c s v e).2.group = (Validation.step c s w e).2.group := by
  have hopened : ∀ values, (v.openRule values).selectors = (w.openRule values).selectors := by
    intro values
    show v.selectors ++ [String.intercalate ", " (v.group ++ _)] = _
    rw [h.selectors, h.group]
    rfl
  cases e with
  | ignored | customProperty => exact ⟨h.selectors, h.group⟩
  | selector => exact ⟨h.selectors, congrArg (· ++ _) h.group⟩
  | beginRuleset | beginAtRule => exact ⟨hopened _, rfl⟩
  | endRuleset | endAtRule => exact ⟨congrArg List.dropLast h.selectors, h.group⟩
  | declaration name values =>
      obtain ⟨hv, hv'⟩ := selectors_declare c s v name values
      obtain ⟨hw, hw'⟩ := selectors_declare c s w name values
      exact ⟨hv.trans (h.selectors.trans hw.symm), hv'.trans (h.group.trans hw'.symm)⟩

theorem Beside.step (h : Beside s before v w) (hok : (step c s v e).1 = .ok ()) :
    Beside s before (step c s v e).2 (step c s w e).2 where
  declarations := (h.report_step e).1
  issues := (h.report_step e).2
  selectors := (h.selectors_step e).1
  group := (h.selectors_step e).2
  resolve := by
    rw [resolve_step hok, resolve_step ((h.fst_step e).symm.trans hok), h.resolve]

/-- **Two such validations** go on alike and report the same about the same events. -/
theorem Beside.steps (h : Beside s before v w) (es : List Event) :
    (Validation.steps c s v es).1 = (Validation.steps c s w es).1 ∧
      (Validation.steps c s v es).2.report.declarations =
        before.declarations + (Validation.steps c s w es).2.report.declarations ∧
      (Validation.steps c s v es).2.report.issues =
        before.issues ++ (Validation.steps c s w es).2.report.issues := by
  induction es generalizing v w with
  | nil => exact ⟨rfl, h.declarations, h.issues⟩
  | cons e es ih =>
      have hsame : (Validation.step c s v e).1 = (Validation.step c s w e).1 := h.fst_step e
      by_cases hok : (Validation.step c s v e).1 = .ok ()
      · rw [steps_cons_of_ok hok, steps_cons_of_ok (hsame ▸ hok)]
        exact ih (h.step hok)
      · rw [steps_cons_of_not_ok hok, steps_cons_of_not_ok (hsame ▸ hok)]
        exact ⟨hsame, h.report_step e⟩

end Validation

namespace Checker

open Validation

variable {c : Checker} {s : Settings} {d : Dictionary}

theorem report_validateEvents (c : Checker) (s : Settings) (d : Dictionary) (es : List Event)
    (broken : Option String) :
    (c.validateEvents s d es broken).2.report = (steps c s (.start d) es).2.report := by
  unfold validateEvents
  generalize steps c s (.start d) es = r
  obtain ⟨answer, v⟩ := r
  cases answer with
  | error e => rfl
  | ok => cases broken <;> rfl

/-- How validating events ends is how their steps end, and if these end well it is told by what reading
the stylesheet ended with. -/
theorem fst_validateEvents (c : Checker) (s : Settings) (d : Dictionary) (es : List Event)
    (broken : Option String) :
    (c.validateEvents s d es broken).1 =
      (steps c s (.start d) es).1.bind fun _ =>
        match broken with
        | some m => .error (.stylesheet m)
        | none => .ok () := by
  unfold validateEvents
  generalize steps c s (.start d) es = r
  obtain ⟨answer, v⟩ := r
  cases answer with
  | error e => rfl
  | ok => cases broken <;> rfl

theorem steps_ok_iff (es : List Event) :
    (steps c s (.start d) es).1 = .ok () ↔ (c.validateEvents s d es none).1 = .ok () := by
  rw [fst_validateEvents]
  cases (steps c s (.start d) es).1 with
  | error e =>
      constructor
      · intro h
        cases h
      · intro h
        cases h
  | ok => exact ⟨fun _ => rfl, fun _ => rfl⟩

theorem validateEvents_of_not_ok {es : List Event} (h : (steps c s (.start d) es).1 ≠ .ok ())
    (broken : Option String) :
    c.validateEvents s d es broken = steps c s (.start d) es := by
  unfold validateEvents
  generalize steps c s (.start d) es = r at h
  obtain ⟨answer, v⟩ := r
  cases answer with
  | error e => rfl
  | ok => exact absurd rfl h

/-- **Nothing is carried over from one rule to the next.** If the first of two lists of events has
complete rules, both after each other have as many declarations as they have together and the issues of
the first before those of the second, and validating them ends as validating the second does; only a
fault in the first ends it there.

There are at most as many issues as declarations. The report is that of the events that were read, which
are all of them if there is no fault: the issues are in the order of their declarations, each is what is
reported about its declaration alone, and its selector is that of exactly the rules that are open there,
the outermost first. -/
theorem validateEvents_append (c : Checker) (s : Settings) (d : Dictionary) :
    (∀ (first second : List Event) (broken : Option String), Event.Complete first →
      let one := c.validateEvents s d first none
      let other := c.validateEvents s d second broken
      let both := c.validateEvents s d (first ++ second) broken
      (one.1 = .ok () → both.1 = other.1 ∧
        both.2.report.declarations = one.2.report.declarations + other.2.report.declarations ∧
        both.2.report.issues = one.2.report.issues ++ other.2.report.issues) ∧
      (one.1 ≠ .ok () → both = one)) ∧
    ∀ (es : List Event) (broken : Option String),
      let report := (c.validateEvents s d es broken).2.report
      report.issues.length ≤ report.declarations ∧
      (∃ n ≤ es.length, ((c.validateEvents s d es none).1 = .ok () → n = es.length) ∧
        report.declarations = (es.take n).countP Event.declares ∧
        report.issues = (List.range n).filterMap (Report.issueAt c s d es)) ∧
      ∀ place issue, Report.issueAt c s d es place = some issue →
        issue.selector = String.intercalate " "
          ((Event.openRules (es.take place)).map (Event.headOf (es.take place))) := by
  constructor
  · intro first second broken hfirst one other both
    refine ⟨fun hok => ?_, fun hnot => ?_⟩
    · have hsteps := (steps_ok_iff first).mpr hok
      obtain ⟨_, -, -, hall⟩ := (reads_start c s d).steps first
      have hbeside := ((hall hsteps).2.beside hfirst).steps (c := c) second
      rw [← steps_append hsteps] at hbeside
      refine ⟨?_, ?_⟩
      · rw [fst_validateEvents, fst_validateEvents, hbeside.1]
      · rw [report_validateEvents, report_validateEvents, report_validateEvents]
        exact hbeside.2
    · have hfault := mt (steps_ok_iff first).mp hnot
      have hboth := steps_append_of_not_ok hfault second
      show c.validateEvents s d (first ++ second) broken = c.validateEvents s d first none
      rw [validateEvents_of_not_ok hfault, validateEvents_of_not_ok (by rwa [hboth]), hboth]
  · intro es broken report
    obtain ⟨n, hn, hreport, hall⟩ := (reads_start c s d).steps es
    have hlength : (es.take n).length = n := List.length_take_of_le hn
    have heq : report = .of c s d (es.take n) := (report_validateEvents c s d es broken).trans hreport
    rw [heq]
    refine ⟨Report.length_issues_of_le _,
      ⟨n, hn, fun hok => (hall ((steps_ok_iff es).mpr hok)).1, rfl, ?_⟩, fun place issue hissue => ?_⟩
    · show (List.range (es.take n).length).filterMap _ = _
      rw [hlength]
      refine List.filterMap_congr fun place hplace => ?_
      have hlt := List.mem_range.mp hplace
      unfold Report.issueAt
      rw [List.getElem?_take_of_lt hlt, List.take_take, Nat.min_eq_left (Nat.le_of_lt hlt)]
    · obtain ⟨e, -, he⟩ := Option.bind_eq_some_iff.mp hissue
      exact Event.selector_of_issue? he

/-- A checker for which `inherit` is the only keyword of all properties. -/
def inheriting : Checker :=
  ⟨⟨1000, true, Token.isSignificant⟩, foldedGraph "inherit" (.keyword "inherit"), .empty⟩

/-- The property `color` is `red`. -/
def redDictionary : Dictionary :=
  Dictionary.empty.put ⟨.property, "color"⟩ ⟨.keyword "red", "red", .pending⟩

/-- The events of `@media { a, b { color: blue; color: red } }`. -/
def nestedRules : List Event :=
  [.beginAtRule "@media" [], .selector [⟨.ident, "a", none⟩], .beginRuleset [⟨.ident, "b", none⟩],
    .declaration "color" [⟨.ident, "blue", none⟩], .declaration "color" [⟨.ident, "red", none⟩],
    .endRuleset, .endAtRule]

/-- The events of `p { top: red }`. -/
def unknownRule : List Event :=
  [.beginRuleset [⟨.ident, "p", none⟩], .declaration "top" [⟨.ident, "red", none⟩], .endRuleset]

/-- A rule in another one and with a list of selectors, and then a rule with an unknown property. -/
theorem validateEvents_append_nested :
    let both := (inheriting.validateEvents .standard redDictionary (nestedRules ++ unknownRule) none).2
    Event.Complete nestedRules ∧
      (inheriting.validateEvents .standard redDictionary nestedRules none).1 = .ok () ∧
      both.report.declarations = 3 ∧ both.report.issues.map Issue.selector = ["@media a, b", "p"] := by
  intro both
  have hcomplete : Event.Complete nestedRules := by decide
  have hok : (inheriting.validateEvents .standard redDictionary nestedRules none).1 = .ok () := by
    decide +kernel
  obtain ⟨-, hdeclarations, hissues⟩ := ((validateEvents_append inheriting .standard
    redDictionary).1 nestedRules unknownRule none hcomplete).1 hok
  refine ⟨hcomplete, hok, hdeclarations.trans (by decide +kernel), ?_⟩
  rw [hissues]
  decide +kernel

end Checker

end ValueGrammar

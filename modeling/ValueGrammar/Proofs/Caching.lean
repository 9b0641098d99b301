import ValueGrammar.Proofs.Caching.Plain
import ValueGrammar.Proofs.Folding
import ValueGrammar.Proofs.Views

/-!
# `ValueGrammar.Proofs.Caching` — what is compiled once is not noticed

An entry of a dictionary that was compiled answers a look-up as if it were compiled then: adding a
grammar under its name puts a new entry in its place, and the settings do not change. So a workspace
answers every sequence of requests like a lexer that keeps nothing.

## Contents
- `NameMap.Alike`: maps with the same names and related values.
- `Definition.Holds`, `Dictionary.Holds`: entries that answer as if they were compiled anew.
- `Checker.Holds`, `Reply.Gives`: checks that do.
- `Workspace.Mirrors`, `Workspace.Mirrors.answers`: a workspace that answers like a lexer, request by
  request.
- `Workspace.serve_create`: every sequence of requests.
-/

namespace ValueGrammar

section

-- comparing two terms by computation must not start reading a text
attribute [local irreducible] Grammar.parse

/-! ## Maps -/

namespace NameMap

variable {α β γ : Type} {R : α → β → Prop} {m : NameMap α} {m' : NameMap β}

section entries

variable {es : List (String × α)} {es' : List (String × β)}
  (h : List.Forall₂ (fun e e' => e.1 = e'.1 ∧ R e.2 e'.2) es es')

include h

/-- What is made of a name and a value in the same way from related values. -/
theorem map_eq_of_forall₂ {f : String × α → γ} {f' : String × β → γ}
    (hf : ∀ name a b, R a b → f (name, a) = f' (name, b)) : es.map f = es'.map f' := by
  induction h with
  | nil => rfl
  | @cons e e' _ _ he _ ih =>
      obtain ⟨n, x⟩ := e
      obtain ⟨n', y⟩ := e'
      obtain ⟨rfl, hxy⟩ := he
      rw [List.map_cons, List.map_cons, hf n x y hxy, ih]

theorem rel_lookup (name : String) : Option.Rel R (es.lookup name) (es'.lookup name) := by
  induction h with
  | nil => exact .none
  | @cons e e' es es' he hes ih =>
      obtain ⟨n, x⟩ := e
      obtain ⟨n', y⟩ := e'
      obtain ⟨rfl, hxy⟩ := he
      simp only [List.lookup_cons]
      split
      · exact .some hxy
      · exact ih

theorem forall₂_insertInto (name : String) {a : α} {b : β} (hab : R a b) :
    List.Forall₂ (fun e e' => e.1 = e'.1 ∧ R e.2 e'.2) (insertInto name a es)
      (insertInto name b es') := by
  induction h with
  | nil => exact .cons ⟨rfl, hab⟩ .nil
  | @cons e e' es es' he hes ih =>
      obtain ⟨n, x⟩ := e
      obtain ⟨n', y⟩ := e'
      obtain ⟨rfl, hxy⟩ := he
      simp only [insertInto]
      split
      · exact .cons ⟨rfl, hab⟩ hes
      · split
        · exact .cons ⟨rfl, hab⟩ (.cons ⟨rfl, hxy⟩ hes)
        · exact .cons ⟨rfl, hxy⟩ ih

/-- In a sorted list, a value that is put in the place of another one keeps the order and the number of
the entries. -/
theorem forall₂_insertInto_left (hsorted : es.Pairwise fun e e' => e.1 < e'.1) {name : String} {a : α}
    {b : β} (hb : es'.lookup name = some b) (hab : R a b) :
    List.Forall₂ (fun e e' => e.1 = e'.1 ∧ R e.2 e'.2) (insertInto name a es) es' := by
  induction h with
  | nil => cases hb
  | @cons e e' es es' he hes ih =>
      obtain ⟨n, x⟩ := e
      obtain ⟨n', y⟩ := e'
      obtain ⟨rfl, hxy⟩ := he
      obtain ⟨hfirst, hrest⟩ := List.pairwise_cons.mp hsorted
      simp only [List.lookup_cons] at hb
      simp only [insertInto]
      by_cases hname : name = n
      · subst hname
        rw [beq_self_eq_true] at hb
        cases hb
        rw [if_pos rfl]
        exact .cons ⟨rfl, hab⟩ hes
      · rw [beq_eq_false_iff_ne.mpr hname] at hb
        -- the names increase, so one that comes later cannot be less than the first
        have hle : ¬ name < n := by
          intro hlt
          obtain ⟨before, after, hsplit, -⟩ := List.lookup_eq_some_iff.mp hb
          have hnames : es.map (·.1) = es'.map (·.1) := map_eq_of_forall₂ hes fun _ _ _ _ => rfl
          have hmem : name ∈ es.map (·.1) := by
            rw [hnames, hsplit]
            simp
          obtain ⟨e, he, rfl⟩ := List.mem_map.mp hmem
          exact String.lt_irrefl _ (String.lt_trans (hfirst e he) hlt)
        rw [if_neg hname, if_neg hle]
        exact .cons ⟨rfl, hxy⟩ (ih hrest hb)

end entries

/-- The same names, with related values. -/
def Alike (R : α → β → Prop) (m : NameMap α) (m' : NameMap β) : Prop :=
  List.Forall₂ (fun e e' => e.1 = e'.1 ∧ R e.2 e'.2) m.entries m'.entries

theorem alike_empty : Alike R .empty .empty := .nil

theorem Alike.insert (h : Alike R m m') (name : String) {a : α} {b : β} (hab : R a b) :
    Alike R (m.insert name a) (m'.insert name b) := forall₂_insertInto h name hab

/-- A name has related values in both maps, or none. -/
theorem Alike.get? (h : Alike R m m') (name : String) :
    Option.Rel R (m.get? name) (m'.get? name) := rel_lookup h name

/-- A value may be replaced by another one that is related to the same. -/
theorem Alike.replace (h : Alike R m m') {name : String} {a : α} {b : β}
    (hb : m'.get? name = some b) (hab : R a b) : Alike R (m.insert name a) m' :=
  forall₂_insertInto_left h m.sorted hb hab

theorem Alike.map_entries (h : Alike R m m') {f : String × α → γ} {f' : String × β → γ}
    (hf : ∀ name a b, R a b → f (name, a) = f' (name, b)) :
    m.entries.map f = m'.entries.map f' := map_eq_of_forall₂ h hf

theorem Alike.names (h : Alike R m m') : m.names = m'.names := h.map_entries fun _ _ _ _ => rfl

end NameMap

/-! ## Entries -/

/-- The entry answers every look-up as if its item were compiled then. -/
structure Definition.Holds (s : Settings) (e : Definition) (item : Plain.Item) : Prop where
  grammar : e.grammar = item.grammar
  resolve : e.resolve s = some <$> item.compile s
  sound : ∀ error, item.compile s = .error error → error.fault? = none

namespace Definition

variable {s : Settings} {e : Definition} {item : Plain.Item}

theorem touch_grammar : (e.touch s).grammar = e.grammar := by
  unfold touch
  split <;> rfl

/-- Looking an entry up compiles it at most once, and its answers stay what they were. -/
theorem Holds.touch (h : e.Holds s item) : (e.touch s).Holds s item where
  grammar := touch_grammar.trans h.grammar
  resolve := by
    rw [resolve_touch fun error he => ?_, h.resolve]
    rw [h.resolve] at he
    cases hc : item.compile s with
    | ok graph => rw [hc] at he; cases he
    | error error' =>
        rw [hc] at he
        cases he
        exact h.sound error hc
  sound := h.sound

/-- The only error that a text which was read can still give is no fault. -/
theorem holds_pending (hs : s.SaysFolding) {source : String} {g : Grammar}
    (hg : Grammar.parse source = .ok g) :
    Holds s ⟨g, source, .pending⟩ (.text source g) where
  grammar := rfl
  resolve := rfl
  sound error he := by
    obtain ⟨fold, hfold⟩ := hs
    rw [Plain.Item.compile, Graph.ofGrammar_eq hfold] at he
    cases hc : (Compiler.standard fold).compile g with
    | ok root => rw [hc] at he; cases he
    | error error' =>
        obtain ⟨group, count, combinator, rfl⟩ :=
          Compiler.tooManyTerms_of_compile (Grammar.wellFormed_of_parse hg) hc
        rw [hc] at he
        cases he
        rfl

theorem holds_generic (name : String) (count : Recognition) :
    Holds s ⟨(Graph.ofRecognition name count).grammar, (Graph.ofRecognition name count).source,
      .built (Graph.ofRecognition name count)⟩ (.generic name count) where
  grammar := rfl
  resolve := rfl
  sound _ he := nomatch he

end Definition

/-! ## Dictionaries -/

/-- Every entry of the dictionary answers as if its item were compiled anew. -/
def Dictionary.Holds (s : Settings) (d : Dictionary) (n : Plain.Names) : Prop :=
  ∀ kind, NameMap.Alike (Definition.Holds s) (d.entries kind) (n.items kind)

namespace Dictionary

open Plain

variable {s : Settings} {d : Dictionary} {n : Names}

theorem holds_empty : Holds s .empty .empty := by
  rintro (_ | _) <;> exact NameMap.alike_empty

theorem Holds.put (h : d.Holds s n) (r : Reference) {e : Definition} {item : Item}
    (he : e.Holds s item) : (d.put r e).Holds s (n.put r item) := by
  obtain ⟨kind, name⟩ := r
  intro kind'
  cases kind <;> cases kind'
  · exact (h .type).insert name he
  · exact h .property
  · exact h .type
  · exact (h .property).insert name he

/-- A reference has an entry if it has an item, and the entry answers for the item. -/
theorem Holds.find? (h : d.Holds s n) (r : Reference) :
    Option.Rel (Definition.Holds s) (d.find? r) (n.find? r) := (h r.kind).get? r.name

/-- **Looking a name up gives what compiling its item anew gives.** -/
theorem Holds.resolve (h : d.Holds s n) (r : Reference) : d.resolve s r = n.resolve s r := by
  have hfind := h.find? r
  unfold Dictionary.resolve Names.resolve
  generalize d.find? r = found at hfind ⊢
  generalize n.find? r = found' at hfind ⊢
  cases hfind with
  | none => rfl
  | some he => exact he.resolve

/-- A look-up replaces an entry by one that answers the same. -/
theorem Holds.touch (h : d.Holds s n) (r : Reference) : (d.touch s r).Holds s n := by
  have hfind := h.find? r
  unfold Dictionary.touch
  cases hd : d.find? r with
  | none => exact h
  | some e =>
      rw [hd] at hfind
      cases hn : n.find? r with
      | none => rw [hn] at hfind; cases hfind
      | some item =>
          rw [hn] at hfind
          cases hfind with
          | some he =>
              obtain ⟨kind, name⟩ := r
              intro kind'
              cases kind <;> cases kind'
              · exact (h .type).replace hn he.touch
              · exact h .property
              · exact h .type
              · exact (h .property).replace hn he.touch

theorem Holds.touchAll (h : d.Holds s n) (rs : List Reference) :
    (rs.foldl (Dictionary.touch s) d).Holds s n := by
  induction rs generalizing d with
  | nil => exact h
  | cons r rs ih => exact ih (h.touch r)

theorem Holds.addGeneric (h : d.Holds s n) (name : String) (count : Recognition) :
    (d.addGeneric name count).Holds s (n.addGeneric name count) :=
  h.put ⟨.type, name⟩ (Definition.holds_generic name count)

/-- A grammar that can be read is added to both; where it cannot, neither changes. -/
theorem add_cases (d : Dictionary) (n : Names) (r : Reference) (source : String) :
    (∃ g, Grammar.parse source = .ok g ∧ d.add r source = .ok (d.put r ⟨g, source, .pending⟩) ∧
      n.add r source = .ok (n.put r (.text source g))) ∨
    ∃ error, d.add r source = .error error ∧ n.add r source = .error error := by
  unfold Dictionary.add Definition.ofText Names.add
  cases Grammar.parse source with
  | ok g => exact .inl ⟨g, rfl, rfl, rfl⟩
  | error error => exact .inr ⟨_, rfl, rfl⟩

theorem addAll_cons (d : Dictionary) (kind : ReferenceKind) (name source : String)
    (rest : List (String × String)) :
    d.addAll kind ((name, source) :: rest) =
      match d.add ⟨kind, name⟩ source with
      | .ok d' => d'.addAll kind rest
      | .error error => (.error error, d) := rfl

theorem addAll_fst (d : Dictionary) (n : Names) (kind : ReferenceKind)
    (entries : List (String × String)) : (d.addAll kind entries).1 = (n.addAll kind entries).1 := by
  induction entries generalizing d n with
  | nil => rfl
  | cons entry rest ih =>
      obtain ⟨name, source⟩ := entry
      rw [addAll_cons, Names.addAll_cons]
      rcases add_cases d n ⟨kind, name⟩ source with ⟨g, -, hd, hn⟩ | ⟨error, hd, hn⟩
      · rw [hd, hn]
        exact ih _ _
      · rw [hd, hn]

theorem Holds.addAll (h : d.Holds s n) (hs : s.SaysFolding) (kind : ReferenceKind)
    (entries : List (String × String)) :
    (d.addAll kind entries).2.Holds s (n.addAll kind entries).2 := by
  induction entries generalizing d n with
  | nil => exact h
  | cons entry rest ih =>
      obtain ⟨name, source⟩ := entry
      rw [addAll_cons, Names.addAll_cons]
      rcases add_cases d n ⟨kind, name⟩ source with ⟨g, hg, hd, hn⟩ | ⟨error, hd, hn⟩
      · rw [hd, hn]
        exact ih (h.put ⟨kind, name⟩ (Definition.holds_pending hs hg))
      · rw [hd, hn]
        exact h

theorem addDocument_fst (d : Dictionary) (n : Names) (doc : Document) :
    (d.addDocument doc).1 = (n.addDocument doc).1 := by
  have htypes := addAll_fst d n .type doc.types
  unfold Dictionary.addDocument Names.addDocument
  generalize d.addAll .type doc.types = added at htypes ⊢
  generalize n.addAll .type doc.types = added' at htypes ⊢
  obtain ⟨_ | _, d'⟩ := added <;> obtain ⟨_, n'⟩ := added' <;> cases htypes
  · rfl
  · exact addAll_fst d' n' .property doc.properties

theorem Holds.addDocument (h : d.Holds s n) (hs : s.SaysFolding) (doc : Document) :
    (d.addDocument doc).2.Holds s (n.addDocument doc).2 := by
  have htypes := addAll_fst d n .type doc.types
  have hholds := h.addAll hs .type doc.types
  unfold Dictionary.addDocument Names.addDocument
  generalize d.addAll .type doc.types = added at htypes hholds ⊢
  generalize n.addAll .type doc.types = added' at htypes hholds ⊢
  obtain ⟨_ | _, d'⟩ := added <;> obtain ⟨_, n'⟩ := added' <;> cases htypes
  · exact hholds
  · exact hholds.addAll hs .property doc.properties

theorem holds_generic : Holds s .generic .generic := by
  have hfold : ∀ (rs : List Recognizer) (d : Dictionary) (n : Names), d.Holds s n →
      Holds s (rs.foldl (fun d (r : Recognizer) => d.addGeneric r.name r) d)
        (rs.foldl (fun n (r : Recognizer) => n.addGeneric r.name r) n) := by
    intro rs
    induction rs with
    | nil => exact fun _ _ h => h
    | cons r rs ih => exact fun d n h => ih _ _ (h.addGeneric r.name r)
  exact hfold Recognizer.all _ _ holds_empty

theorem Holds.names (h : d.Holds s n) (kind : ReferenceKind) :
    (d.entries kind).names = (n.items kind).names := (h kind).names

/-- The names that are missing depend on the grammars and the names only. -/
theorem Holds.missingReferences (h : d.Holds s n) : d.missingReferences = n.missing := by
  have hrefs : ∀ kind, referencesOf (d.entries kind) =
      (n.items kind).entries.flatMap fun e => e.2.grammar.references := by
    intro kind
    rw [referencesOf, List.flatMap_def, List.flatMap_def, (h kind).map_entries]
    intro name e item he
    rw [he.grammar]
  have hnone : (fun r => (d.find? r).isNone) = fun r => (n.find? r).isNone := by
    funext r
    have hfind := h.find? r
    generalize d.find? r = found at hfind ⊢
    generalize n.find? r = found' at hfind ⊢
    cases hfind <;> rfl
  have htypes := hrefs .type
  have hproperties := hrefs .property
  change referencesOf d.types = _ at htypes
  change referencesOf d.properties = _ at hproperties
  unfold Dictionary.missingReferences Names.missing
  simp only [htypes, hproperties, hnone]
  rfl

theorem Holds.definition (h : d.Holds s n) (r : Reference) :
    (d.find? r).map Definition.grammar = (n.find? r).map Item.grammar := by
  have hfind := h.find? r
  generalize d.find? r = found at hfind ⊢
  generalize n.find? r = found' at hfind ⊢
  cases hfind with
  | none => rfl
  | some he => exact congrArg some he.grammar

end Dictionary

/-! ## Checks -/

/-- The checker matches as the lexer does, and keeps no graph but those that compiling the same text
again would give. -/
structure Checker.Holds (c : Checker) (l : Plain.Lexer) : Prop where
  matcher : c.matcher = l.matcher
  cssWide : c.cssWide = l.cssWide
  kept : ∀ source g, c.grammars.get? source = some g → Graph.ofText l.settings source = .ok g

/-- A reply gives an answer and log entries, and the dictionary it leaves answers as before. -/
structure Reply.Gives (reply : Reply) (l : Plain.Lexer)
    (given : Except Error Verdict × List LogEntry) : Prop where
  answer : reply.answer = given.1
  logs : reply.logs = given.2
  dictionary : reply.dictionary.Holds l.settings l.names

namespace Checker.Holds

open Plain

variable {c : Checker} {l : Lexer} {d : Dictionary} (h : c.Holds l)

include h

/-- Compiling a text gives what compiling it anew gives, and what is kept then is so, too. -/
theorem compile (source : String) :
    (c.compile l.settings source).1 = Graph.ofText l.settings source ∧
      (c.compile l.settings source).2.Holds l := by
  unfold Checker.compile
  cases hkept : c.grammars.get? source with
  | some g => exact ⟨(h.kept source g hkept).symm, h⟩
  | none =>
      cases hg : Graph.ofText l.settings source with
      | error error => exact ⟨rfl, h⟩
      | ok g =>
          -- the graph is kept under its own text
          refine ⟨rfl, h.matcher, h.cssWide, fun source' g' hget => ?_⟩
          rw [NameMap.get?_insert] at hget
          split at hget
          · rename_i hsource
            cases hget
            rw [hsource, hg]
          · exact h.kept source' g' hget

theorem checkGraph (hd : d.Holds l.settings l.names) (tokens : List Token) (g : Graph) :
    (c.checkGraph l.settings d tokens g).Gives l (l.checkGraph tokens g) := by
  have hresolve : d.resolve l.settings = l.names.resolve l.settings := funext hd.resolve
  have hrun : (c.matcher.runWith l.settings d tokens g).1 =
      (l.matcher.run tokens g fun r =>
        (l.names.resolve l.settings r).map (Option.map Graph.root)).1.mapError Error.ofMachine := by
    unfold Matcher.runWith
    simp only [hresolve, h.matcher]
  refine ⟨?_, ?_, hd.touchAll _⟩
  · exact congrArg (Except.map (judge tokens g)) hrun
  · rw [Checker.checkGraph, Lexer.checkGraph, ← hrun, ← h.matcher]

theorem checkTokens (hd : d.Holds l.settings l.names) (tokens : List Token) (g : Graph)
    (cssWide : Bool) : (c.checkTokens l.settings d tokens g cssWide).Gives l (l.checkTokens tokens g cssWide) := by
  unfold Checker.checkTokens Lexer.checkTokens
  split
  · exact ⟨rfl, rfl, hd⟩
  · split
    · -- the second match goes by the dictionary that the first one leaves
      have hfirst := h.checkGraph hd tokens c.cssWide
      rw [h.cssWide] at hfirst ⊢
      rcases hgiven : l.checkGraph tokens l.cssWide with ⟨error | v, logs⟩
      · rw [hgiven] at hfirst
        simp only [hfirst.answer]
        exact hfirst
      · rw [hgiven] at hfirst
        simp only [hfirst.answer]
        split
        · exact hfirst
        · have hsecond := h.checkGraph hfirst.dictionary tokens g
          refine ⟨hsecond.answer, ?_, hsecond.dictionary⟩
          simp only [hfirst.logs, hsecond.logs]
    · exact h.checkGraph hd tokens g

theorem checkFound {found : Except Error Graph × Dictionary} {found' : Except Error Graph}
    (hf : found.1 = found') (hfd : found.2.Holds l.settings l.names) (tokens : List Token)
    (cssWide : Bool) :
    (c.checkFound l.settings found tokens cssWide).Gives l
      (l.checkFound found' tokens cssWide) := by
  obtain ⟨_ | g, d'⟩ := found
  · subst hf
    exact ⟨rfl, rfl, hfd⟩
  · subst hf
    exact h.checkTokens hfd tokens g cssWide

end Checker.Holds

/-- Looking a type up gives its graph compiled anew. -/
theorem Dictionary.Holds.typeGraph {l : Plain.Lexer} {d : Dictionary}
    (hd : d.Holds l.settings l.names) (name : String) :
    (Checker.typeGraph l.settings d name).1 = l.typeGraph name ∧
      (Checker.typeGraph l.settings d name).2.Holds l.settings l.names := by
  unfold Checker.typeGraph Plain.Lexer.typeGraph
  simp only [hd.resolve]
  rcases l.names.resolve l.settings ⟨.type, name⟩ with _ | _ | _ <;> exact ⟨rfl, hd.touch _⟩

/-- Looking a property up gives its graph compiled anew, under either name. -/
theorem Dictionary.Holds.propertyGraph {l : Plain.Lexer} {d : Dictionary}
    (hd : d.Holds l.settings l.names) (name : String) :
    (Checker.propertyGraph l.settings d name).1 = l.propertyGraph name ∧
      (Checker.propertyGraph l.settings d name).2.Holds l.settings l.names := by
  unfold Checker.propertyGraph Plain.Lexer.propertyGraph
  split
  · exact ⟨rfl, hd⟩
  · have hd' := hd.touch ⟨.property, Text.lower name⟩
    simp only [hd.resolve, hd'.resolve]
    rcases l.names.resolve l.settings ⟨.property, Text.lower name⟩ with _ | _ | _
    · exact ⟨rfl, hd'⟩
    · dsimp only
      split
      · exact ⟨rfl, hd'⟩
      · rcases l.names.resolve l.settings
            ⟨.property, (PropertyName.vendorPrefix (Text.lower name)).2⟩ with _ | _ | _ <;>
          exact ⟨rfl, hd'.touch _⟩
    · exact ⟨rfl, hd'⟩

/-! ## Workspaces -/

/-- The error or the value of what was computed, in the course of an action. -/
theorem Action.map_liftM {α β : Type} (f : α → β) (x : Except Error α) (w : Workspace) :
    (f <$> (liftM x : Action α)) w = (f <$> x, w) := by
  cases x <;> rfl

namespace Workspace

/-- The present dictionary. -/
def dictionary (w : Workspace) : Dictionary := (w.libraryAt w.library).dictionary

/-- The settings the present dictionary compiles with. -/
def dictionarySettings (w : Workspace) : Settings :=
  w.settingsAt (w.libraryAt w.library).settings

/-- The workspace with another dictionary in place of the present one. -/
def withDictionary (w : Workspace) (d : Dictionary) : Workspace :=
  { w with libraries :=
      w.libraries.setIfInBounds w.library { w.libraryAt w.library with dictionary := d } }

/-- The workspace with another checker in place of its own. -/
def withChecker (w : Workspace) (c : Checker) : Workspace :=
  { w with inspector := { w.inspector with checker := c } }

/-- The workspace with more entries in its log. -/
def withLogs (w : Workspace) (entries : List LogEntry) : Workspace :=
  { w with logs := w.logs ++ entries }

/-- What a check of the checker answers and changes, where it goes by the present dictionary. -/
theorem inspect_apply {w : Workspace} (h : w.inspector.library = w.library)
    (f : Checker → Settings → Dictionary → Reply) :
    (Response.verdict <$> inspect f) w =
      let reply := f w.inspector.checker w.dictionarySettings w.dictionary
      (Response.verdict <$> reply.answer, (w.withDictionary reply.dictionary).withLogs reply.logs) := by
  obtain ⟨shelves, settings, libraries, library, ⟨checker, compiling, number⟩, runner, counter,
    logs⟩ := w
  obtain rfl : number = library := h
  exact Action.map_liftM Response.verdict _ _

/-- What a check against a text answers and changes. -/
theorem checkGrammar_apply (w : Workspace) (source : String) (tokens : List Token) :
    (Response.verdict <$> checkGrammar source tokens) w =
      match w.inspector.checker.compile (w.settingsAt w.inspector.settings) source with
      | (.error error, c) => (.error error, w.withChecker c)
      | (.ok g, c) =>
        (Response.verdict <$> inspect fun c s d => c.checkTokens s d tokens g false)
          (w.withChecker c) := by
  change (Response.verdict <$> (do
    let compiled := w.inspector.checker.compile (w.settingsAt w.inspector.settings) source
    set { w with inspector := { w.inspector with checker := compiled.2 } }
    let g ← (liftM compiled.1 : Action Graph)
    inspect fun c s d => c.checkTokens s d tokens g false : Action Verdict)) w = _
  rcases w.inspector.checker.compile (w.settingsAt w.inspector.settings) source with ⟨_ | g, c⟩ <;>
    rfl

/-- The workspace answers as the lexer does: it has one dictionary, which its checker goes by, and
one collection of settings. -/
structure Mirrors (w : Workspace) (l : Plain.Lexer) : Prop where
  inRange : w.library < w.libraries.size
  library : w.inspector.library = w.library
  dictionarySettings : w.dictionarySettings = l.settings
  checkerSettings : w.settingsAt w.inspector.settings = l.settings
  saysFolding : l.settings.SaysFolding
  dictionary : w.dictionary.Holds l.settings l.names
  checker : w.inspector.checker.Holds l

namespace Mirrors

open Plain

variable {w : Workspace} {l : Lexer} (h : w.Mirrors l)

include h

/-- Only the dictionary changes, and with it what the names stand for. -/
theorem withDictionary {d : Dictionary} {n : Names} (hd : d.Holds l.settings n) :
    (w.withDictionary d).Mirrors { l with names := n } := by
  have hlibrary : (w.withDictionary d).libraryAt w.library =
      { w.libraryAt w.library with dictionary := d } := by
    unfold libraryAt Workspace.withDictionary
    rw [Array.getD_eq_getD_getElem?, Array.getElem?_setIfInBounds_self_of_lt h.inRange]
    rfl
  refine ⟨?_, h.library, ?_, h.checkerSettings, h.saysFolding, ?_, h.checker.matcher,
    h.checker.cssWide, h.checker.kept⟩
  · exact (Array.size_setIfInBounds ..).symm ▸ h.inRange
  · change (w.withDictionary d).settingsAt
      ((w.withDictionary d).libraryAt w.library).settings = l.settings
    rw [hlibrary]
    exact h.dictionarySettings
  · change ((w.withDictionary d).libraryAt w.library).dictionary.Holds l.settings n
    rw [hlibrary]
    exact hd

theorem withChecker {c : Checker} (hc : c.Holds l) : (w.withChecker c).Mirrors l :=
  ⟨h.inRange, h.library, h.dictionarySettings, h.checkerSettings, h.saysFolding, h.dictionary, hc⟩

theorem withLogs (entries : List LogEntry) : (w.withLogs entries).Mirrors l :=
  ⟨h.inRange, h.library, h.dictionarySettings, h.checkerSettings, h.saysFolding, h.dictionary,
    h.checker⟩

end Mirrors

/-! ### Requests -/

/-- A request is answered as the given answer says, with the entries logged that it has, and the
workspace then mirrors the lexer it leaves. -/
def Answers (w : Workspace) (request : Request)
    (given : Except Error Response × List LogEntry × Plain.Lexer) : Prop :=
  (request.perform w).1 = given.1 ∧ (request.perform w).2.logs = w.logs ++ given.2.1 ∧
    (request.perform w).2.Mirrors given.2.2

namespace Mirrors

open Plain

variable {w : Workspace} {l : Lexer} (h : w.Mirrors l)

include h

/-- A request that looks at the dictionary, and changes nothing. -/
theorem answers_of_unchanged {request : Request} {answer : Response}
    (hperform : request.perform w = (.ok answer, w)) : w.Answers request (.ok answer, [], l) := by
  unfold Answers
  rw [hperform]
  exact ⟨rfl, (List.append_nil _).symm, h⟩

/-- A request that changes the dictionary. -/
theorem answers_of_dictionary {request : Request} {answer : Except Error Response} {d : Dictionary}
    {n : Names} (hperform : request.perform w = (answer, w.withDictionary d))
    (hd : d.Holds l.settings n) : w.Answers request (answer, [], { l with names := n }) := by
  unfold Answers
  rw [hperform]
  exact ⟨rfl, (List.append_nil _).symm, h.withDictionary hd⟩

/-- A check whose reply gives what the lexer gives. -/
theorem inspect {f : Checker → Settings → Dictionary → Reply}
    {given : Except Error Verdict × List LogEntry}
    (hf : (f w.inspector.checker l.settings w.dictionary).Gives l given) :
    ((Response.verdict <$> Workspace.inspect f) w).1 = Response.verdict <$> given.1 ∧
      ((Response.verdict <$> Workspace.inspect f) w).2.logs = w.logs ++ given.2 ∧
      ((Response.verdict <$> Workspace.inspect f) w).2.Mirrors l := by
  rw [← h.dictionarySettings] at hf
  rw [inspect_apply h.library]
  dsimp only
  rw [hf.answer, hf.logs]
  exact ⟨rfl, rfl, (h.withDictionary hf.dictionary).withLogs _⟩

theorem answers_add (r : Reference) (source : String) :
    w.Answers (.add r source) (l.answer (.add r source)) := by
  have hperform : (Request.add r source).perform w =
      ((fun _ => Response.done) <$> (w.dictionary.addAll r.kind [(r.name, source)]).1,
        w.withDictionary (w.dictionary.addAll r.kind [(r.name, source)]).2) :=
    Action.map_liftM _ _ (w.withDictionary (w.dictionary.addAll r.kind [(r.name, source)]).2)
  -- the same text is read on both sides, and where it cannot be read both keep what they have
  rw [Dictionary.addAll_cons] at hperform
  rcases Dictionary.add_cases w.dictionary l.names r source with ⟨g, hg, hd, hn⟩ | ⟨error, hd, hn⟩
  · rw [hd] at hperform
    rw [Plain.Lexer.answer_add, hn]
    exact h.answers_of_dictionary hperform
      (h.dictionary.put r (Definition.holds_pending h.saysFolding hg))
  · rw [hd] at hperform
    rw [Plain.Lexer.answer_add, hn]
    exact h.answers_of_dictionary hperform h.dictionary

theorem answers_lookup (r : Reference) : w.Answers (.lookup r) (l.answer (.lookup r)) := by
  have hperform : (Request.lookup r).perform w =
      (Response.graph <$> w.dictionary.resolve w.dictionarySettings r,
        w.withDictionary (w.dictionary.touch w.dictionarySettings r)) :=
    Action.map_liftM _ _ (w.withDictionary (w.dictionary.touch w.dictionarySettings r))
  rw [h.dictionarySettings, h.dictionary.resolve] at hperform
  exact h.answers_of_dictionary hperform (h.dictionary.touch r)

/-- A graph that was kept is the one that compiling the text anew gives. -/
theorem answers_checkGrammar (source : String) (tokens : List Token) :
    w.Answers (.checkGrammar source tokens) (l.answer (.checkGrammar source tokens)) := by
  have hperform : (Request.checkGrammar source tokens).perform w = _ :=
    checkGrammar_apply w source tokens
  have hgiven : l.answer (.checkGrammar source tokens) =
      (Response.verdict <$> (l.checkFound (Graph.ofText l.settings source) tokens false).1,
        (l.checkFound (Graph.ofText l.settings source) tokens false).2, l) := rfl
  obtain ⟨hgraph, hc⟩ := h.checker.compile source
  rw [h.checkerSettings] at hperform
  unfold Answers
  rw [hperform, hgiven, ← hgraph]
  generalize w.inspector.checker.compile l.settings source = compiled at hc ⊢
  obtain ⟨error | g, c⟩ := compiled
  · exact ⟨rfl, (List.append_nil _).symm, h.withChecker hc⟩
  · exact (h.withChecker hc).inspect (hc.checkTokens h.dictionary tokens g false)

/-- **Every request is answered as without caches**, and leaves a workspace that answers so. -/
theorem answers (request : Request) : w.Answers request (l.answer request) := by
  cases request with
  | add r source => exact h.answers_add r source
  | addGeneric name count => exact h.answers_of_dictionary rfl (h.dictionary.addGeneric name count)
  | lookup r => exact h.answers_lookup r
  | definition r =>
      refine h.answers_of_unchanged ?_
      rw [← h.dictionary.definition r]
      rfl
  | names kind =>
      refine h.answers_of_unchanged ?_
      rw [← h.dictionary.names kind]
      rfl
  | missingReferences =>
      refine h.answers_of_unchanged ?_
      rw [← h.dictionary.missingReferences]
      rfl
  | checkGrammar source tokens => exact h.answers_checkGrammar source tokens
  | checkType name tokens =>
      obtain ⟨hfound, hd⟩ := h.dictionary.typeGraph name
      exact h.inspect (h.checker.checkFound hfound hd tokens false)
  | checkProperty name tokens =>
      obtain ⟨hfound, hd⟩ := h.dictionary.propertyGraph name
      exact h.inspect (h.checker.checkFound hfound hd tokens true)

/-- Requests one after the other. The induction is on how many there are: each one leaves a workspace
that mirrors the lexer. -/
theorem serve (requests : List Request) :
    w.serve requests = ((l.serve requests).1, w.logs ++ (l.serve requests).2) := by
  induction requests generalizing w l with
  | nil => exact Prod.ext rfl (List.append_nil _).symm
  | cons request rest ih =>
      obtain ⟨hanswer, hlogs, hnext⟩ := h.answers request
      have hserve : w.serve (request :: rest) = ((request.perform w).1 ::
          ((request.perform w).2.serve rest).1, ((request.perform w).2.serve rest).2) := rfl
      rw [hserve, ih hnext, hanswer, hlogs, List.append_assoc]
      rfl

end Mirrors

/-- **Nothing of what is kept is noticed.** A dictionary and a checker with the same settings answer
every sequence of requests, and log for it, what is answered and logged when names stand for texts and
everything is compiled anew at every look-up. -/
theorem serve_create (s : Settings) (types properties : List (String × String))
    (requests : List Request) :
    (create s types properties).map (fun w => w.serve requests) =
      (Plain.Lexer.create s types properties).map fun l => l.serve requests := by
  unfold create Plain.Lexer.create Checker.ofSettings Dictionary.ofSettings Plain.Names.ofSettings
  rcases s.requireBool Settings.genericTypes with error | generic
  · rfl
  obtain ⟨d, n, hholds, hd, hn⟩ : ∃ (d : Dictionary) (n : Plain.Names), d.Holds s n ∧
      (if generic then Dictionary.generic else .empty) = d ∧
      (if generic then Plain.Names.generic else .empty) = n := by
    cases generic with
    | true => exact ⟨_, _, Dictionary.holds_generic, rfl, rfl⟩
    | false => exact ⟨_, _, Dictionary.holds_empty, rfl, rfl⟩
  simp only [bind, Except.bind, pure, Except.pure, hd, hn]
  have hadded := Dictionary.addDocument_fst d n ⟨types, properties⟩
  have hnames := fun hs => hholds.addDocument hs ⟨types, properties⟩
  generalize d.addDocument ⟨types, properties⟩ = added at hadded hnames ⊢
  generalize n.addDocument ⟨types, properties⟩ = added' at hadded hnames ⊢
  obtain ⟨_ | _, d'⟩ := added <;> obtain ⟨_, n'⟩ := added' <;> cases hadded
  · rfl
  dsimp only
  rcases s.requireString Settings.cssWideKeywords with error | source
  · rfl
  dsimp only
  rcases hcssWide : Graph.ofText s source with error | cssWide
  · rfl
  dsimp only [Except.mapError]
  rcases Matcher.ofSettings s with error | matcher
  · rfl
  -- a checker was made, so the settings say whether to fold
  have hs : s.SaysFolding := by
    unfold Graph.ofText at hcssWide
    cases hparse : Grammar.parse source with
    | error error => rw [hparse] at hcssWide; cases hcssWide
    | ok g =>
      rw [hparse] at hcssWide
      obtain ⟨fold, hfold, -⟩ := Graph.ofGrammar_ok hcssWide
      exact ⟨fold, hfold⟩
  refine congrArg Except.ok (Mirrors.serve ?_ requests)
  exact ⟨by simp, rfl, rfl, rfl, hs, hnames hs, rfl, rfl, fun _ _ h => nomatch h⟩

end Workspace

end

-- between checks of a property that refers to it, a type is given another grammar and a recognizer
example :
    (Workspace.create .standard [("a", "x")] [("p", "<a>")]).map (fun w =>
      (w.serve [.checkProperty "p" [⟨.ident, "x", none⟩], .add ⟨.type, "a"⟩ "y",
        .checkProperty "p" [⟨.ident, "x", none⟩], .addGeneric "a" fun ahead _ => ahead.length,
        .checkProperty "p" [⟨.ident, "x", none⟩]]).1.map fun answer =>
          match answer with
          | .ok (.verdict v) => some v.result.reason
          | _ => none) =
      .ok [some .matched, none, some .mismatched, none, some .matched] := rfl

end ValueGrammar

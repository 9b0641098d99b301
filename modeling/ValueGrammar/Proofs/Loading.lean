import ValueGrammar.Dictionary.Document
import ValueGrammar.Proofs.Caching
import ValueGrammar.Proofs.References
import Mathlib.Data.List.Sort

/-!
# `ValueGrammar.Proofs.Loading` — the order of a document does not matter

The grammars of a document are added one by one, up to the first that cannot be read. In a document a
name stands only once among the types and once among the properties, so each entry of the dictionary is
touched at most once. What a loaded dictionary holds can then be said without the order: the grammars of
the document under its names, and what was there before under all the others. A load that fails stops
somewhere, and which of the grammars are in by then is the only thing that depends on the order.

## Contents
- `NameMap.ext_get?`, `Dictionary.ext_find?`: maps are what they answer.
- `Document.Gives`, `Document.Unambiguous`, `Document.Reordered`: documents without their order.
- `Dictionary.addAll_ok_iff`, `Dictionary.find?_addAll_cases`, …: adding named grammars.
- `Dictionary.find?_addDocument_cases`, `Dictionary.find?_addDocument_of_ok`: adding a document.
- `Dictionary.addDocument_of_reordered`: the same for every order.
-/

namespace ValueGrammar

/-! ## Maps -/

/-- Maps with the same values under all names are the same. -/
theorem NameMap.ext_get? {α : Type} {m m' : NameMap α}
    (hget : ∀ name, m.get? name = m'.get? name) : m = m' := by
  have hmem : ∀ e, e ∈ m.entries ↔ e ∈ m'.entries := by
    intro e
    obtain ⟨name, a⟩ := e
    rw [mem_entries_iff, mem_entries_iff, hget]
  have hirrefl : ∀ e : String × α, ¬ e.1 < e.1 := fun e => String.lt_irrefl e.1
  have hnodup : ∀ m : NameMap α, m.entries.Nodup := by
    intro m
    refine List.Pairwise.imp ?_ m.sorted
    intro e e' hlt heq
    subst heq
    exact hirrefl e hlt
  have hperm : m.entries.Perm m'.entries :=
    (List.perm_ext_iff_of_nodup (hnodup m) (hnodup m')).mpr hmem
  have hentries : m.entries = m'.entries := by
    refine hperm.eq_of_pairwise (fun e e' _ _ hlt hlt' => ?_) m.sorted m'.sorted
    exact absurd (String.lt_trans hlt hlt') (hirrefl _)
  obtain ⟨es, _⟩ := m
  obtain ⟨es', _⟩ := m'
  cases hentries
  rfl

namespace Dictionary

variable {d d' : Dictionary} {doc doc' : Document} {kind : ReferenceKind} {r : Reference}
  {es : List (String × String)} {name source : String}

/-- Dictionaries with the same entries for all references are the same. -/
theorem ext_find? (hfind : ∀ r, d.find? r = d'.find? r) : d = d' := by
  have hentries : ∀ kind, d.entries kind = d'.entries kind := by
    intro kind
    exact NameMap.ext_get? fun name => hfind ⟨kind, name⟩
  obtain ⟨types, properties⟩ := d
  obtain ⟨types', properties'⟩ := d'
  have htypes : types = types' := hentries .type
  have hproperties : properties = properties' := hentries .property
  rw [htypes, hproperties]

end Dictionary

/-! ## Documents -/

namespace Document

/-- The named grammars of one name space. -/
def entries (doc : Document) : ReferenceKind → List (String × String)
  | .type => doc.types
  | .property => doc.properties

/-- The document has the text of a grammar for the name of a reference. -/
def Gives (doc : Document) (r : Reference) (source : String) : Prop :=
  (r.name, source) ∈ doc.entries r.kind

/-- No name stands twice among the types, and none among the properties. -/
def Unambiguous (doc : Document) : Prop := ∀ kind, ((doc.entries kind).map Prod.fst).Nodup

/-- The other document has the same types and the same properties in some other order. -/
def Reordered (doc doc' : Document) : Prop := ∀ kind, (doc.entries kind).Perm (doc'.entries kind)

variable {doc doc' : Document}

theorem Reordered.gives_iff (h : doc.Reordered doc') {r : Reference} {source : String} :
    doc.Gives r source ↔ doc'.Gives r source := (h r.kind).mem_iff

theorem Reordered.unambiguous (h : doc.Reordered doc') (hdoc : doc.Unambiguous) :
    doc'.Unambiguous := fun kind => ((h kind).map Prod.fst).nodup_iff.mp (hdoc kind)

end Document

/-! ## Named grammars -/

/-- The text of a grammar can be read. -/
def Definition.Readable (source : String) : Prop := ∃ e, Definition.ofText source = .ok e

namespace Dictionary

section

-- comparing two terms by computation must not start reading a text
attribute [local irreducible] Grammar.parse

variable {d d' : Dictionary} {doc doc' : Document} {kind : ReferenceKind} {r : Reference}
  {es : List (String × String)} {name source : String} {e : Definition}

theorem add_of_ofText (h : Definition.ofText source = .ok e) : d.add r source = .ok (d.put r e) := by
  unfold add
  rw [h]

theorem add_of_not_readable (h : ¬ Definition.Readable source) (d : Dictionary) (r : Reference) :
    ∃ error, d.add r source = .error error := by
  unfold add
  cases hs : Definition.ofText source with
  | ok e => exact absurd ⟨e, hs⟩ h
  | error error => exact ⟨_, rfl⟩

theorem addAll_cons_of_ofText (h : Definition.ofText source = .ok e) :
    d.addAll kind ((name, source) :: es) = (d.put ⟨kind, name⟩ e).addAll kind es := by
  rw [addAll_cons, add_of_ofText h]

theorem addAll_cons_of_not_readable (h : ¬ Definition.Readable source) (d : Dictionary)
    (kind : ReferenceKind) (name : String) (es : List (String × String)) :
    ∃ error, d.addAll kind ((name, source) :: es) = (.error error, d) := by
  obtain ⟨error, herror⟩ := add_of_not_readable h d ⟨kind, name⟩
  exact ⟨error, by rw [addAll_cons, herror]⟩

/-- Named grammars are all added if and only if each of them can be read. -/
theorem addAll_ok_iff :
    (d.addAll kind es).1 = .ok () ↔ ∀ entry ∈ es, Definition.Readable entry.2 := by
  induction es generalizing d with
  | nil => exact ⟨fun _ => List.forall_mem_nil _, fun _ => rfl⟩
  | cons entry es ih =>
      obtain ⟨name, source⟩ := entry
      rw [List.forall_mem_cons]
      by_cases hs : Definition.Readable source
      · obtain ⟨e, he⟩ := id hs
        rw [addAll_cons_of_ofText he, ih]
        exact ⟨fun h => ⟨hs, h⟩, fun h => h.2⟩
      · obtain ⟨error, herror⟩ := addAll_cons_of_not_readable hs d kind name es
        rw [herror]
        constructor
        · intro h
          cases h
        · intro h
          exact absurd h.1 hs

/-- Every entry is the old one, or that of a grammar that was to be added under its name. -/
theorem find?_addAll_cases (d : Dictionary) (kind : ReferenceKind) (es : List (String × String))
    (r : Reference) :
    (d.addAll kind es).2.find? r = d.find? r ∨
      ∃ source e, r.kind = kind ∧ (r.name, source) ∈ es ∧ Definition.ofText source = .ok e ∧
        (d.addAll kind es).2.find? r = some e := by
  induction es generalizing d with
  | nil => exact .inl rfl
  | cons entry es ih =>
      obtain ⟨name, source⟩ := entry
      by_cases hs : Definition.Readable source
      · obtain ⟨e, he⟩ := hs
        rw [addAll_cons_of_ofText he]
        rcases ih (d.put ⟨kind, name⟩ e) with hold | ⟨source', e', hkind, hmem, he', hfind⟩
        · rw [hold, find?_put]
          by_cases hr : r = ⟨kind, name⟩
          · subst hr
            exact .inr ⟨source, e, rfl, List.mem_cons_self, he, if_pos rfl⟩
          · exact .inl (if_neg hr)
        · exact .inr ⟨source', e', hkind, List.mem_cons_of_mem _ hmem, he', hfind⟩
      · obtain ⟨error, herror⟩ := addAll_cons_of_not_readable hs d kind name es
        rw [herror]
        exact .inl rfl

/-- Nothing is added under other names. -/
theorem find?_addAll_of_notMem (h : ∀ source, ¬ (r.kind = kind ∧ (r.name, source) ∈ es)) :
    (d.addAll kind es).2.find? r = d.find? r := by
  rcases find?_addAll_cases d kind es r with hold | ⟨source, _, hkind, hmem, -⟩
  · exact hold
  · exact absurd ⟨hkind, hmem⟩ (h source)

/-- If all grammars are added, each of them is found under its name. -/
theorem find?_addAll_of_mem (hn : (es.map Prod.fst).Nodup) (hok : (d.addAll kind es).1 = .ok ())
    (h : (name, source) ∈ es) :
    ∃ e, Definition.ofText source = .ok e ∧ (d.addAll kind es).2.find? ⟨kind, name⟩ = some e := by
  induction es generalizing d with
  | nil => cases h
  | cons entry es ih =>
      obtain ⟨first, text⟩ := entry
      obtain ⟨⟨e, he⟩, -⟩ := List.forall_mem_cons.mp (addAll_ok_iff.mp hok)
      rw [List.map_cons, List.nodup_cons] at hn
      rw [addAll_cons_of_ofText he] at hok ⊢
      rcases List.mem_cons.mp h with hfirst | hrest
      · -- the name does not come again
        cases hfirst
        refine ⟨e, he, ?_⟩
        rw [find?_addAll_of_notMem fun source' hmem => hn.1 (List.mem_map.mpr ⟨_, hmem.2, rfl⟩),
          find?_put, if_pos rfl]
      · exact ih hn.2 hok hrest

/-! ## Loading a document -/

theorem addDocument_of_ok (h : (d.addAll .type doc.types).1 = .ok ()) :
    d.addDocument doc = (d.addAll .type doc.types).2.addAll .property doc.properties := by
  unfold addDocument
  generalize d.addAll .type doc.types = added at h ⊢
  obtain ⟨answer, d'⟩ := added
  cases h
  rfl

theorem addDocument_of_not_ok (h : (d.addAll .type doc.types).1 ≠ .ok ()) :
    d.addDocument doc = d.addAll .type doc.types := by
  unfold addDocument
  generalize d.addAll .type doc.types = added at h ⊢
  obtain ⟨answer, d'⟩ := added
  cases answer with
  | ok => exact absurd rfl h
  | error error => rfl

/-- What adding named grammars of the document keeps, adding the document keeps. -/
theorem addDocument_induction {P : Dictionary → Prop} (hd : P d)
    (hadd : ∀ d kind, P d → P (d.addAll kind (doc.entries kind)).2) : P (d.addDocument doc).2 := by
  have htypes : P (d.addAll .type doc.types).2 := hadd d .type hd
  by_cases hok : (d.addAll .type doc.types).1 = .ok ()
  · rw [addDocument_of_ok hok]
    exact hadd _ .property htypes
  · rw [addDocument_of_not_ok hok]
    exact htypes

/-- A document is loaded if and only if each of its grammars can be read. -/
theorem addDocument_ok_iff :
    (d.addDocument doc).1 = .ok () ↔ ∀ r source, doc.Gives r source → Definition.Readable source := by
  have hkinds : (∀ r source, doc.Gives r source → Definition.Readable source) ↔
      (∀ entry ∈ doc.types, Definition.Readable entry.2) ∧
        ∀ entry ∈ doc.properties, Definition.Readable entry.2 := by
    constructor
    · intro h
      exact ⟨fun entry he => h ⟨.type, entry.1⟩ entry.2 he,
        fun entry he => h ⟨.property, entry.1⟩ entry.2 he⟩
    · intro h r source hgives
      obtain ⟨kind, name⟩ := r
      cases kind with
      | type => exact h.1 (name, source) hgives
      | property => exact h.2 (name, source) hgives
  rw [hkinds]
  by_cases hok : (d.addAll .type doc.types).1 = .ok ()
  · have htypes := addAll_ok_iff.mp hok
    rw [addDocument_of_ok hok, addAll_ok_iff]
    exact ⟨fun hproperties => ⟨htypes, hproperties⟩, fun h => h.2⟩
  · rw [addDocument_of_not_ok hok]
    constructor
    · intro h
      exact absurd h hok
    · intro h
      exact absurd (addAll_ok_iff.mpr h.1) hok

/-- Wherever a load stops, every entry is the old one or that of a grammar of the document. -/
theorem find?_addDocument_cases (d : Dictionary) (doc : Document) (r : Reference) :
    (d.addDocument doc).2.find? r = d.find? r ∨
      ∃ source e, doc.Gives r source ∧ Definition.ofText source = .ok e ∧
        (d.addDocument doc).2.find? r = some e := by
  refine addDocument_induction (P := fun d' => d'.find? r = d.find? r ∨
    ∃ source e, doc.Gives r source ∧ Definition.ofText source = .ok e ∧ d'.find? r = some e)
    (.inl rfl) fun d' kind hd' => ?_
  rcases find?_addAll_cases d' kind (doc.entries kind) r with hold | ⟨source, e, rfl, hmem, he, hfind⟩
  · rwa [hold]
  · exact .inr ⟨source, e, hmem, he, hfind⟩

theorem find?_addDocument_of_not_gives (h : ∀ source, ¬ doc.Gives r source) :
    (d.addDocument doc).2.find? r = d.find? r := by
  rcases find?_addDocument_cases d doc r with hold | ⟨source, _, hgives, -⟩
  · exact hold
  · exact absurd hgives (h source)

/-- In a loaded dictionary each grammar of the document is found under its name. -/
theorem find?_addDocument_of_ok (hdoc : doc.Unambiguous) (hok : (d.addDocument doc).1 = .ok ())
    (h : doc.Gives r source) :
    ∃ e, Definition.ofText source = .ok e ∧ (d.addDocument doc).2.find? r = some e := by
  have htypes : (d.addAll .type doc.types).1 = .ok () := by
    by_contra hnot
    rw [addDocument_of_not_ok hnot] at hok
    exact hnot hok
  rw [addDocument_of_ok htypes] at hok ⊢
  obtain ⟨kind, name⟩ := r
  cases kind with
  | type =>
      -- properties are added apart from the types
      obtain ⟨e, he, hfind⟩ := find?_addAll_of_mem (hdoc .type) htypes h
      refine ⟨e, he, ?_⟩
      have hkeep : ∀ source', ¬ (ReferenceKind.type = .property ∧
          (name, source') ∈ doc.properties) := by
        rintro source' ⟨hkind, -⟩
        cases hkind
      exact (find?_addAll_of_notMem hkeep).trans hfind
  | property => exact find?_addAll_of_mem (hdoc .property) hok h

/-- **Loading a document does not depend on the order of its names.** It is loaded in one order if and
only if it is in another, namely if each of its grammars can be read, and the dictionaries are the same
then: the grammars of the document stand under its names, types and properties apart, and under all
other names is what was there before. If it is not loaded, what is under other names is what was there
before all the same, and under a name of the document is either that or its grammar in the document. -/
theorem addDocument_of_reordered (hdoc : doc.Unambiguous) (h : doc.Reordered doc') :
    ((d.addDocument doc).1 = .ok () ↔ (d.addDocument doc').1 = .ok ()) ∧
    ((d.addDocument doc).1 = .ok () →
      (d.addDocument doc).2 = (d.addDocument doc').2 ∧
      (∀ r source, doc.Gives r source →
        ∃ e, Definition.ofText source = .ok e ∧ (d.addDocument doc).2.find? r = some e) ∧
      ∀ r, (∀ source, ¬ doc.Gives r source) → (d.addDocument doc).2.find? r = d.find? r) ∧
    ((d.addDocument doc).1 ≠ .ok () → ∀ r,
      ((∀ source, ¬ doc.Gives r source) → (d.addDocument doc).2.find? r = d.find? r) ∧
      ∀ source, doc.Gives r source → (d.addDocument doc).2.find? r = d.find? r ∨
        ∃ e, Definition.ofText source = .ok e ∧ (d.addDocument doc).2.find? r = some e) := by
  have hiff : (d.addDocument doc).1 = .ok () ↔ (d.addDocument doc').1 = .ok () := by
    rw [addDocument_ok_iff, addDocument_ok_iff]
    simp only [h.gives_iff]
  refine ⟨hiff, fun hok => ⟨?_, fun r source => find?_addDocument_of_ok hdoc hok,
    fun r => find?_addDocument_of_not_gives⟩, fun _ r => ⟨find?_addDocument_of_not_gives, ?_⟩⟩
  · refine ext_find? fun r => ?_
    by_cases hr : ∃ source, doc.Gives r source
    · obtain ⟨source, hgives⟩ := hr
      obtain ⟨e, he, hfind⟩ := find?_addDocument_of_ok hdoc hok hgives
      obtain ⟨e', he', hfind'⟩ := find?_addDocument_of_ok (h.unambiguous hdoc) (hiff.mp hok)
        (h.gives_iff.mp hgives)
      rw [he] at he'
      cases he'
      rw [hfind, hfind']
    · rw [not_exists] at hr
      rw [find?_addDocument_of_not_gives hr,
        find?_addDocument_of_not_gives fun source hgives => hr source (h.gives_iff.mpr hgives)]
  · intro source hgives
    rcases find?_addDocument_cases d doc r with hold | ⟨source', e, hgives', he, hfind⟩
    · exact .inl hold
    · -- the document has only one text for the name
      have hsource : source' = source := by
        have hsame := List.inj_on_of_nodup_map (hdoc r.kind) hgives' hgives rfl
        exact congrArg Prod.snd hsame
      exact .inr ⟨e, hsource ▸ he, hfind⟩

end

/-- Two types are loaded in both orders. With a text that cannot be read in the place of the second,
neither order is loaded, and only one of them gets to the first. -/
theorem addDocument_of_reordered_swapped :
    let good (types : List (String × String)) : Document := ⟨types, [("a", "y")]⟩
    let types := [("a", "x"), ("b", "<a>")]
    let broken := [("a", "x"), ("b", "|")]
    ((empty.addDocument (good types)).1 = .ok () ∧
      (empty.addDocument (good types)).2 = (empty.addDocument (good types.reverse)).2) ∧
    (empty.addDocument (good broken)).1 ≠ .ok () ∧
      (empty.addDocument (good broken.reverse)).1 ≠ .ok () ∧
      ((empty.addDocument (good broken)).2.find? ⟨.type, "a"⟩).isSome = true ∧
      (empty.addDocument (good broken.reverse)).2.find? ⟨.type, "a"⟩ = none := by
  intro good types broken
  have hgood : ∀ types : List (String × String), (types.map Prod.fst).Nodup →
      (good types).Unambiguous := by
    intro types htypes kind
    cases kind with
    | type => exact htypes
    | property => exact List.nodup_singleton _
  have hreversed : ∀ types, (good types).Reordered (good types.reverse) := by
    intro types kind
    cases kind with
    | type => exact types.reverse_perm.symm
    | property => exact .refl _
  have hloaded : (empty.addDocument (good types)).1 = .ok () := rfl
  have hstopped : (empty.addDocument (good broken)).1 ≠ .ok () := by
    intro h
    cases h
  have hsame := addDocument_of_reordered (d := empty) (hgood types (by decide)) (hreversed types)
  have hfailed :=
    addDocument_of_reordered (d := empty) (hgood broken (by decide)) (hreversed broken)
  exact ⟨⟨hloaded, (hsame.2.1 hloaded).1⟩, hstopped, mt hfailed.1.mpr hstopped, rfl, rfl⟩

end Dictionary

end ValueGrammar

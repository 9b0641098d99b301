/-!
# `ValueGrammar.NameMap` — values under names

A map from names to values whose entries are kept sorted by name. The order is part of the map, and
inserting a value keeps it.
-/

namespace ValueGrammar

/-- Values under names. The entries are sorted by name, so that each name has one at most. -/
structure NameMap (α : Type) where
  entries : List (String × α)
  sorted : entries.Pairwise fun e e' => e.1 < e'.1

namespace NameMap

variable {α : Type}

/-! ## Sorted lists -/

/-- Puts a value under a name in a sorted list; one already there is replaced. -/
def insertInto (name : String) (a : α) : List (String × α) → List (String × α)
  | [] => [(name, a)]
  | (n, b) :: rest =>
    if name = n then (name, a) :: rest
    else if name < n then (name, a) :: (n, b) :: rest
    else (n, b) :: insertInto name a rest

theorem lookup_insertInto (name : String) (a : α) (es : List (String × α)) (k : String) :
    (insertInto name a es).lookup k = if k = name then some a else es.lookup k := by
  induction es with
  | nil => by_cases h : k = name <;> simp [insertInto, List.lookup_cons, h, beq_eq_false_iff_ne.mpr]
  | cons e rest ih =>
    obtain ⟨n, b⟩ := e
    simp only [insertInto]
    by_cases hn : name = n
    · subst hn
      by_cases hk : k = name <;> simp [hk, List.lookup_cons, beq_eq_false_iff_ne.mpr]
    · by_cases hlt : name < n
      · by_cases hk : k = name <;> simp [hn, hlt, hk, List.lookup_cons, beq_eq_false_iff_ne.mpr]
      · simp only [hn, hlt, if_false, List.lookup_cons, ih]
        by_cases hkn : k = n
        · subst hkn
          simp [Ne.symm hn]
        · simp [beq_eq_false_iff_ne.mpr hkn]

theorem mem_insertInto {name : String} {a : α} {es : List (String × α)} {e : String × α}
    (h : e ∈ insertInto name a es) : e = (name, a) ∨ e ∈ es := by
  induction es with
  | nil => exact .inl (List.mem_singleton.mp h)
  | cons e' rest ih =>
    obtain ⟨n, b⟩ := e'
    simp only [insertInto] at h
    split at h
    · rcases List.mem_cons.mp h with h | h
      · exact .inl h
      · exact .inr (List.mem_cons_of_mem _ h)
    · split at h
      · exact List.mem_cons.mp h
      · rcases List.mem_cons.mp h with rfl | h
        · exact .inr List.mem_cons_self
        · exact (ih h).imp_right (List.mem_cons_of_mem _)

/-- Putting a value under a name keeps the order. The induction is on the entries. -/
theorem pairwise_insertInto {name : String} {a : α} {es : List (String × α)}
    (h : es.Pairwise fun e e' => e.1 < e'.1) :
    (insertInto name a es).Pairwise fun e e' => e.1 < e'.1 := by
  induction es with
  | nil => exact List.pairwise_singleton _ _
  | cons e rest ih =>
    obtain ⟨n, b⟩ := e
    obtain ⟨hhead, hrest⟩ := List.pairwise_cons.mp h
    simp only [insertInto]
    by_cases hn : name = n
    · subst hn
      rw [if_pos rfl]
      exact List.pairwise_cons.mpr ⟨hhead, hrest⟩
    · by_cases hlt : name < n
      · rw [if_neg hn, if_pos hlt]
        refine List.pairwise_cons.mpr ⟨fun e he => ?_, h⟩
        rcases List.mem_cons.mp he with rfl | he
        · exact hlt
        · exact String.lt_trans hlt (hhead e he)
      · have hgt : n < name := Std.lt_of_le_of_ne (String.not_lt.mp hlt) (Ne.symm hn)
        rw [if_neg hn, if_neg hlt]
        refine List.pairwise_cons.mpr ⟨fun e he => ?_, ih hrest⟩
        rcases mem_insertInto he with rfl | he
        · exact hgt
        · exact hhead e he

/-! ## Maps -/

/-- No names. -/
def empty : NameMap α := ⟨[], .nil⟩

instance : Inhabited (NameMap α) := ⟨empty⟩

/-- The value under a name. -/
def get? (m : NameMap α) (name : String) : Option α := m.entries.lookup name

/-- Is there a value under the name? -/
def contains (m : NameMap α) (name : String) : Bool := (m.get? name).isSome

/-- Puts a value under a name; one already there is replaced. -/
def insert (m : NameMap α) (name : String) (a : α) : NameMap α :=
  ⟨insertInto name a m.entries, pairwise_insertInto m.sorted⟩

/-- The names, sorted. -/
def names (m : NameMap α) : List String := m.entries.map (·.1)

@[simp] theorem get?_insert (m : NameMap α) (name : String) (a : α) (k : String) :
    (m.insert name a).get? k = if k = name then some a else m.get? k :=
  lookup_insertInto name a m.entries k

@[simp] theorem get?_empty (k : String) : (empty : NameMap α).get? k = none := rfl

/-- The entries of a map are the values under the names. -/
theorem mem_entries_iff {m : NameMap α} {name : String} {a : α} :
    (name, a) ∈ m.entries ↔ m.get? name = some a := by
  obtain ⟨es, hsorted⟩ := m
  change (name, a) ∈ es ↔ es.lookup name = some a
  constructor
  · intro hmem
    induction es with
    | nil => cases hmem
    | cons e rest ih =>
      obtain ⟨hhead, hrest⟩ := List.pairwise_cons.mp hsorted
      rcases List.mem_cons.mp hmem with rfl | hmem
      · exact List.lookup_cons_self
      · have hlt : e.1 < name := hhead (name, a) hmem
        have hne : name ≠ e.1 := fun he => String.lt_irrefl name (he ▸ hlt)
        rw [List.lookup_cons, beq_eq_false_iff_ne.mpr hne]
        exact ih hrest hmem
  · intro hget
    obtain ⟨before, after, hsplit, -⟩ := List.lookup_eq_some_iff.mp hget
    rw [hsplit]
    exact List.mem_append_right _ List.mem_cons_self

end NameMap

end ValueGrammar

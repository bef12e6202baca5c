/-!
# Tables

A table is a finite map kept as a list of entries in the order in which their keys were first
inserted. Scopes, the symbol tables of a namespace and hash tables are tables. `find?_insert` and
`find?_insertAll` say what insertions do to every look-up; `size_insert` says when one adds an
entry.

The tables that are modelled have no order of their own: they may list their entries in any order,
and in another one in each run. The order of insertion stands for all of these. It shows where a
hash table is printed or mapped over; look-ups, copies and unions of tables do not depend on it.
-/

namespace SmallLisp

/-- A finite map. The first entry of a key counts, and `insert` never adds a second one. -/
structure Table (κ : Type) (α : Type) where
  entries : List (κ × α)
deriving Repr

namespace Table

variable {κ α : Type} [DecidableEq κ]

def empty : Table κ α := ⟨[]⟩

instance : Inhabited (Table κ α) := ⟨empty⟩

/-- The value of the first entry with the key. -/
def lookupIn? (k : κ) : List (κ × α) → Option α
  | [] => none
  | (key, a) :: rest => if key = k then some a else lookupIn? k rest

/-- Replace the value of the first entry with the key, or add an entry at the end. -/
def insertIn (k : κ) (a : α) : List (κ × α) → List (κ × α)
  | [] => [(k, a)]
  | (key, b) :: rest => if key = k then (k, a) :: rest else (key, b) :: insertIn k a rest

def find? (t : Table κ α) (k : κ) : Option α := lookupIn? k t.entries

def contains (t : Table κ α) (k : κ) : Bool := (t.find? k).isSome

def insert (t : Table κ α) (k : κ) (a : α) : Table κ α := ⟨insertIn k a t.entries⟩

/-- Store every entry of `t` in `base`. The first entry of a key is stored last, so it counts. -/
def insertAll (base t : Table κ α) : Table κ α :=
  t.entries.foldr (fun e acc => acc.insert e.1 e.2) base

def size (t : Table κ α) : Nat := t.entries.length

/-- The keys in the order of their first insertion. -/
def keys (t : Table κ α) : List κ := t.entries.map (·.1)

/-- The values in the order of the keys. -/
def values (t : Table κ α) : List α := t.entries.map (·.2)

theorem lookupIn?_insertIn (k j : κ) (a : α) (es : List (κ × α)) :
    lookupIn? j (insertIn k a es) = if k = j then some a else lookupIn? j es := by
  induction es with
  | nil => simp [insertIn, lookupIn?]
  | cons e rest ih =>
    obtain ⟨key, b⟩ := e
    by_cases hk : key = k
    · subst hk
      by_cases hj : key = j <;> simp [insertIn, lookupIn?, hj]
    · by_cases hj : key = j
      · subst hj
        simp [insertIn, lookupIn?, hk, Ne.symm hk]
      · simp [insertIn, lookupIn?, hk, hj, ih]

/-- An insertion changes the look-up of its own key and of no other. -/
theorem find?_insert (t : Table κ α) (k j : κ) (a : α) :
    (t.insert k a).find? j = if k = j then some a else t.find? j :=
  lookupIn?_insertIn k j a t.entries

@[simp]
theorem find?_insert_self (t : Table κ α) (k : κ) (a : α) : (t.insert k a).find? k = some a := by
  simp [find?_insert]

theorem find?_insert_of_ne (t : Table κ α) {k j : κ} (a : α) (h : k ≠ j) :
    (t.insert k a).find? j = t.find? j := by
  simp [find?_insert, h]

@[simp]
theorem find?_empty (k : κ) : (empty : Table κ α).find? k = none := rfl

theorem length_insertIn (k : κ) (a : α) (es : List (κ × α)) :
    (insertIn k a es).length = es.length + if (lookupIn? k es).isSome then 0 else 1 := by
  induction es with
  | nil => simp [insertIn, lookupIn?]
  | cons e rest ih =>
    obtain ⟨key, b⟩ := e
    by_cases hk : key = k
    · simp [insertIn, lookupIn?, hk]
    · simp [insertIn, lookupIn?, hk, ih]
      omega

/-- An insertion adds an entry exactly when the key was absent. -/
theorem size_insert (t : Table κ α) (k : κ) (a : α) :
    (t.insert k a).size = t.size + if t.contains k then 0 else 1 :=
  length_insertIn k a t.entries

/-! ## Entries and look-ups -/

theorem mem_insertIn {k : κ} {a : α} {e : κ × α} {es : List (κ × α)}
    (h : e ∈ insertIn k a es) : e = (k, a) ∨ e ∈ es := by
  induction es with
  | nil => exact .inl (List.mem_singleton.mp h)
  | cons head rest ih =>
    obtain ⟨key, b⟩ := head
    unfold insertIn at h
    split at h
    · rcases List.mem_cons.mp h with h | h
      · exact .inl h
      · exact .inr (List.mem_cons_of_mem _ h)
    · rcases List.mem_cons.mp h with h | h
      · exact .inr (h ▸ List.mem_cons_self)
      · exact (ih h).imp_right (List.mem_cons_of_mem _)

theorem mem_insert {t : Table κ α} {k : κ} {a : α} {e : κ × α} (h : e ∈ (t.insert k a).entries) :
    e = (k, a) ∨ e ∈ t.entries :=
  mem_insertIn h

theorem mem_insertAll {base t : Table κ α} {e : κ × α} (h : e ∈ (base.insertAll t).entries) :
    e ∈ t.entries ∨ e ∈ base.entries := by
  unfold insertAll at h
  generalize t.entries = es at h
  induction es with
  | nil => exact .inr h
  | cons head rest ih =>
    rcases mem_insert h with rfl | h
    · exact .inl List.mem_cons_self
    · exact (ih h).imp_left (List.mem_cons_of_mem _)

/-- What is found stands in the table. -/
theorem mem_of_find? {t : Table κ α} {k : κ} {a : α} (h : t.find? k = some a) :
    (k, a) ∈ t.entries := by
  unfold find? at h
  generalize t.entries = es at h
  induction es with
  | nil => cases h
  | cons head rest ih =>
    obtain ⟨key, b⟩ := head
    unfold lookupIn? at h
    split at h
    next heq =>
      cases h
      exact heq ▸ List.mem_cons_self
    next => exact List.mem_cons_of_mem _ (ih h)

/-- After storing all entries of `t` its look-ups win over those of the table before. -/
theorem find?_insertAll (base t : Table κ α) (k : κ) :
    (base.insertAll t).find? k = (t.find? k).or (base.find? k) := by
  obtain ⟨es⟩ := t
  show (es.foldr (fun e acc => acc.insert e.1 e.2) base).find? k = (lookupIn? k es).or _
  induction es with
  | nil => rfl
  | cons head rest ih =>
    obtain ⟨key, b⟩ := head
    rw [List.foldr_cons, find?_insert, ih]
    by_cases heq : key = k <;> simp [lookupIn?, heq]

end Table

end SmallLisp

/-!
# Tables

A `Table` remembers the order in which its keys first arrived. Assigning to a key that is present
replaces the value; the key and its place stay.

The keys need an equality test and nothing more: it may tell apart what is equal and even a key from
itself.
-/

namespace RouteRules

universe u v

/-- A finite table in order of arrival. -/
structure Table (κ : Type u) (α : Type v) where
  entries : List (κ × α)

namespace Table

variable {κ : Type u} {α : Type v}

def empty : Table κ α := ⟨[]⟩

instance : EmptyCollection (Table κ α) := ⟨empty⟩

instance : Inhabited (Table κ α) := ⟨empty⟩

def size (t : Table κ α) : Nat := t.entries.length

def keys (t : Table κ α) : List κ := t.entries.map (·.1)

/-- The table with every value turned into another. -/
def map {β : Type v} (f : α → β) (t : Table κ α) : Table κ β :=
  ⟨t.entries.map fun e => (e.1, f e.2)⟩

variable [BEq κ]

/-- The value of a key, if it is present. -/
def find? (t : Table κ α) (k : κ) : Option α := t.entries.lookup k

/-- Assigns to a key in a list of entries. -/
def insertEntry (k : κ) (v : α) : List (κ × α) → List (κ × α)
  | [] => [(k, v)]
  | e :: es => if e.1 == k then (e.1, v) :: es else e :: insertEntry k v es

/-- Assigns `v` to `k`. -/
def insert (t : Table κ α) (k : κ) (v : α) : Table κ α := ⟨insertEntry k v t.entries⟩

/-- The table after assigning each entry in turn. -/
def ofList (es : List (κ × α)) : Table κ α := es.foldl (fun t e => t.insert e.1 e.2) ∅

end Table

end RouteRules

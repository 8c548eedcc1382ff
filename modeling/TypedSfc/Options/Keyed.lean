/-!
# Keyed lists

A list of values under keys, in which each key stands once. A value for a key that is there takes the place of the old one; a new key
goes to the end.
-/

namespace TypedSfc

/-- Values under keys, in order. -/
structure Keyed (α : Type) where
  entries : List (String × α)
  deriving DecidableEq, Repr, Inhabited

namespace Keyed

variable {α β : Type}

/-- Entries with a value put in the place of the one under its key, or at the end. -/
def put (key : String) (value : α) : List (String × α) → List (String × α)
  | [] => [(key, value)]
  | e :: es => if e.1 = key then (key, value) :: es else e :: put key value es

/-- A value put under a key. -/
def insert (t : Keyed α) (key : String) (value : α) : Keyed α := ⟨put key value t.entries⟩

/-- The values of some entries, one after another. -/
def extend (t : Keyed α) (es : List (String × α)) : Keyed α := es.foldl (fun t e => t.insert e.1 e.2) t

/-- The table of some entries. -/
def ofList (es : List (String × α)) : Keyed α := (⟨[]⟩ : Keyed α).extend es

/-- The value under a key. -/
def get? (t : Keyed α) (key : String) : Option α := t.entries.lookup key

/-- A table with its keys and values changed; where two keys become one, the later value counts. -/
def map (f : String → String) (g : α → β) (t : Keyed α) : Keyed β := ofList (t.entries.map fun e => (f e.1, g e.2))

end Keyed

end TypedSfc

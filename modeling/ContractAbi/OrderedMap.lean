/-!
# Maps that keep insertion order

A map from text keys whose members stay in the order their keys were first inserted.
Inserting a key that is already there replaces its value in place, so the key keeps its
position; inserting a new key appends it.

Main statement: `keys_insert_of_mem` (inserting a present key leaves the key order as it was).
-/

namespace ContractAbi

/-- A map from text keys that keeps its members in first-insertion order. -/
abbrev OrderedMap (α : Type) := List (String × α)

namespace OrderedMap

variable {α : Type}

def get? (m : OrderedMap α) (k : String) : Option α :=
  (m.find? (·.1 == k)).map (·.2)

def contains (m : OrderedMap α) (k : String) : Bool :=
  m.any (·.1 == k)

def keys (m : OrderedMap α) : List String :=
  m.map (·.1)

/-- Sets the value of a key: in place when present, appended otherwise. -/
def insert (m : OrderedMap α) (k : String) (v : α) : OrderedMap α :=
  if m.contains k then m.map fun p => if p.1 == k then (k, v) else p
  else m ++ [(k, v)]

theorem keys_insert_of_mem (m : OrderedMap α) (k : String) (v : α) (h : m.contains k = true) :
    (m.insert k v).keys = m.keys := by
  simp only [insert, h, if_true, keys, List.map_map]
  apply List.map_congr_left
  intro p _
  by_cases hp : p.1 = k <;> simp [hp]

end OrderedMap

end ContractAbi

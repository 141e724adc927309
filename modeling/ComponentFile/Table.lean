/-! Association lists that keep the order in which their keys were first put. -/
namespace ComponentFile

abbrev Table (α β : Type) := List (α × β)

namespace Table
variable {α β : Type} [BEq α]

def get? (t : Table α β) (key : α) : Option β := (t.find? (·.1 == key)).map (·.2)

def contains (t : Table α β) (key : α) : Bool := t.any (·.1 == key)

def put : Table α β → α → β → Table α β
  | [], key, value => [(key, value)]
  | (k, v) :: rest, key, value =>
      if k == key then (k, value) :: rest else (k, v) :: put rest key value

def putNew (t : Table α β) (key : α) (value : β) : Table α β :=
  if t.contains key then t else t ++ [(key, value)]

def erase (t : Table α β) (key : α) : Table α β := t.filter fun entry => !(entry.1 == key)

def keys (t : Table α β) : List α := t.map (·.1)

end Table
end ComponentFile

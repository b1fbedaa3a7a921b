/-!
Maps that keep their entries in the order in which the keys were first written. Writing a key again
replaces its value and keeps its place.
-/

namespace QueryLoom.Assoc

variable {κ ν : Type} [BEq κ]

def get? (key : κ) : List (κ × ν) → Option ν
  | [] => none
  | (k, v) :: rest => if k == key then some v else get? key rest

def has (key : κ) (entries : List (κ × ν)) : Bool := entries.any fun (k, _) => k == key

def insert (key : κ) (value : ν) : List (κ × ν) → List (κ × ν)
  | [] => [(key, value)]
  | (k, v) :: rest => if k == key then (k, value) :: rest else (k, v) :: insert key value rest

/-- Writes all entries of `more`, in order. -/
def merge (entries more : List (κ × ν)) : List (κ × ν) :=
  more.foldl (fun acc (k, v) => insert k v acc) entries

/-- The map of a list of entries, of which later ones win. -/
def ofList (entries : List (κ × ν)) : List (κ × ν) := merge [] entries

/-- The entries whose keys differ from `key`. -/
def erase (key : κ) (entries : List (κ × ν)) : List (κ × ν) :=
  entries.filter fun (k, _) => !(k == key)

end QueryLoom.Assoc

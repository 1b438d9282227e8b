/-!
Sets and maps as strictly increasing lists. The order is a parameter, so one pair of insertions
serves texts, identifiers and object keys.
-/

set_option autoImplicit false

namespace Bindery.Sorted

variable {α β : Type}

def insert (before : α → α → Bool) (x : α) : List α → List α
  | [] => [x]
  | y :: ys =>
    if before x y then x :: y :: ys
    else if before y x then y :: insert before x ys
    else y :: ys

def ofList (before : α → α → Bool) (xs : List α) : List α :=
  xs.foldl (fun set x => insert before x set) []

def put (before : α → α → Bool) (key : α) (value : β) : List (α × β) → List (α × β)
  | [] => [(key, value)]
  | entry :: rest =>
    if before key entry.1 then (key, value) :: entry :: rest
    else if before entry.1 key then entry :: put before key value rest
    else (key, value) :: rest

/-- Changes what is bound to a key, starting from `fallback` where nothing is. -/
def update (before : α → α → Bool) (key : α) (fallback : β) (f : β → β) :
    List (α × β) → List (α × β)
  | [] => [(key, f fallback)]
  | entry :: rest =>
    if before key entry.1 then (key, f fallback) :: entry :: rest
    else if before entry.1 key then entry :: update before key fallback f rest
    else (entry.1, f entry.2) :: rest

end Bindery.Sorted

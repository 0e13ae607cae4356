/-!
# Fields

A list falls into fields at every element that separates. There is always one field more than
there are separators, and fields may be empty.
-/

namespace CText

variable {α : Type}

def fields (separates : α → Bool) : List α → List (List α)
  | [] => [[]]
  | a :: rest =>
    if separates a then [] :: fields separates rest
    else match fields separates rest with
      | [] => [[a]]
      | field :: others => (a :: field) :: others

/-- Lists joined with one separator between neighbours. -/
def joinWith (separator : α) : List (List α) → List α
  | [] => []
  | [field] => field
  | field :: next :: others => field ++ separator :: joinWith separator (next :: others)

end CText

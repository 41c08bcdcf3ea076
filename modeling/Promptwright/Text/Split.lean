/-! # Cutting texts at a character -/

namespace Promptwright.Text

/-- The texts between the occurrences of a character, one more than there are occurrences. -/
def splitAt (sep : Char) : List Char → List (List Char)
  | [] => [[]]
  | c :: cs =>
    if c = sep then [] :: splitAt sep cs
    else
      match splitAt sep cs with
      | [] => [[c]]
      | w :: ws => (c :: w) :: ws

/-- What stands before the first occurrence of a character and what stands after it. -/
def cutAt? (sep : Char) : List Char → Option (List Char × List Char)
  | [] => none
  | c :: cs =>
    if c = sep then some ([], cs) else (cutAt? sep cs).map fun (pre, post) => (c :: pre, post)

end Promptwright.Text

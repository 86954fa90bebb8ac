/-!
# Searching in texts
-/

namespace ItemBudget.Text

/-- The word stands somewhere in the text. -/
def includes (word : List Char) : List Char → Bool
  | [] => word.isEmpty
  | c :: cs => word.isPrefixOf (c :: cs) || includes word cs

/-- The word stands somewhere in the text. -/
def mentions (text word : String) : Bool := includes word.toList text.toList

end ItemBudget.Text

/-!
# Blank characters and pieces of a text

A character is blank when Unicode gives it the property `White_Space`. A text is trimmed at both ends,
cut at separators, cut into the words between them, or searched for another one.
-/

namespace MethodSearch.Text

/-- Blank characters are the twenty-five of the property `White_Space`. -/
def isBlank (c : Char) : Bool :=
  let n := c.toNat
  (0x09 ≤ n && n ≤ 0x0D) || n == 0x20 || n == 0x85 || n == 0xA0 || n == 0x1680 ||
    (0x2000 ≤ n && n ≤ 0x200A) || n == 0x2028 || n == 0x2029 || n == 0x202F || n == 0x205F || n == 0x3000

/-- Drops the blanks at both ends. -/
def trimChars (s : List Char) : List Char :=
  ((s.dropWhile isBlank).reverse.dropWhile isBlank).reverse

def trim (s : String) : String :=
  String.ofList (trimChars s.toList)

/-- Cuts at every separator. There is one piece more than there are separators. -/
def pieces (sep : Char → Bool) : List Char → List (List Char)
  | [] => [[]]
  | c :: rest =>
      if sep c then [] :: pieces sep rest
      else match pieces sep rest with
        | [] => [[c]]
        | p :: ps => (c :: p) :: ps

/-- Whether a text holds another one. -/
def holds (part : List Char) : List Char → Bool
  | [] => part.isEmpty
  | c :: rest => part.isPrefixOf (c :: rest) || holds part rest

/-- The longest runs without a separator, none of them empty. -/
def words (sep : Char → Bool) (s : List Char) : List (List Char) :=
  (pieces sep s).filter (fun p => !p.isEmpty)

/-- The non-empty trimmed items of a list written with commas. -/
def commaItems (s : String) : List String :=
  (((pieces (· == ',') s.toList).map trimChars).filter (fun p => !p.isEmpty)).map String.ofList

end MethodSearch.Text

/-! Texts cut into pieces: at a character, at the last one of its kind, and into lines. -/

namespace RepoDocs.Text

/-- The pieces of a text between the characters that satisfy `p`: one more than there are such
characters. -/
def splitAtEach (p : Char → Bool) : List Char → List (List Char)
  | [] => [[]]
  | c :: r =>
    if p c then [] :: splitAtEach p r
    else
      match splitAtEach p r with
      | [] => [[c]]
      | piece :: pieces => (c :: piece) :: pieces

/-- A line without the carriage return that ends it, if one does. -/
def dropReturn (line : List Char) : List Char :=
  if line.getLast? = some '\r' then line.dropLast else line

/-- The lines among the pieces between line feeds: each piece but the last was ended by a line feed,
to which a carriage return before it belongs, and the last is a line only when it is not empty. -/
def linesOfPieces : List (List Char) → List (List Char)
  | [] => []
  | [last] => if last.isEmpty then [] else [last]
  | piece :: rest => dropReturn piece :: linesOfPieces rest

/-- The lines of a text. -/
def lines (s : List Char) : List (List Char) :=
  linesOfPieces (splitAtEach (· == '\n') s)

/-- What stands before and behind the last `sep` of a string, if there is one. -/
def splitLast? (sep : Char) (s : String) : Option (String × String) :=
  let reversed := s.toList.reverse
  match reversed.dropWhile (· != sep) with
  | [] => none
  | _ :: before =>
    some (String.ofList before.reverse, String.ofList (reversed.takeWhile (· != sep)).reverse)

/-- What stands before and behind the first `sep` of a text, if there is one. -/
def splitFirst? (sep : Char) (s : List Char) : Option (List Char × List Char) :=
  match s.dropWhile (· != sep) with
  | [] => none
  | _ :: behind => some (s.takeWhile (· != sep), behind)

end RepoDocs.Text

import RepoDocs.Text.Blank

/-! The owner and name of a repository, read off its address.  An address leads to a repository when
it holds `github.com/` followed by two segments that are not empty; the first place where it does
counts, and any `.git` at the end of the second segment is no part of the name. -/

namespace RepoDocs

structure Coordinates where
  owner : String
  name : String
  deriving DecidableEq, Repr

namespace Coordinates

/-- Why an address leads to no repository. -/
inductive Fault where
  | blank
  | unreadable
  deriving DecidableEq, Repr

def Fault.message : Fault → String
  | blank => "Repository URL is required"
  | unreadable => "Invalid GitHub repository URL"

/-- What stands before the owner. -/
def host : List Char := "github.com/".toList

/-- What may stand behind the name. -/
def suffix : List Char := ".git".toList

/-- The two segments at the start of a text, of which the second is not ended by a slash. -/
def segments? (s : List Char) : Option (List Char × List Char) :=
  match s.takeWhile (· != '/'), s.dropWhile (· != '/') with
  | c :: owner, _ :: rest =>
    match rest.takeWhile (· != '/') with
    | [] => none
    | name => some (c :: owner, name)
  | _, _ => none

/-- The two segments behind the first `github.com/` that two segments follow. -/
def find? : List Char → Option (List Char × List Char)
  | [] => none
  | c :: rest =>
    let here := if host.isPrefixOf (c :: rest) then segments? ((c :: rest).drop host.length) else none
    here <|> find? rest

/-- The text without any `.git` at its end, given reversed: `tig.` off its start. -/
def dropReversedSuffix : List Char → List Char
  | 't' :: 'i' :: 'g' :: '.' :: rest => dropReversedSuffix rest
  | s => s

/-- The text without the `.git`s at its end. -/
def dropSuffixes (s : List Char) : List Char := (dropReversedSuffix s.reverse).reverse

/-- The coordinates that an address gives. -/
def parse (address : String) : Except Fault Coordinates :=
  match Text.trim address.toList with
  | [] => .error .blank
  | s =>
    match find? s with
    | none => .error .unreadable
    | some (owner, segment) =>
      match dropSuffixes segment with
      | [] => .error .unreadable
      | name => .ok ⟨String.ofList owner, String.ofList name⟩

end Coordinates

end RepoDocs

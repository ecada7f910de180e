import RepoDocs.Http.Host

/-! Addresses of resources on the web, read from any text that leads to one and written in their one
normal form: dots in paths are resolved, and characters that may not stand in an address are written
as the numbers of their bytes. -/

namespace RepoDocs.Http

open Text

/-- An address.  The text that holds the host is missing in addresses that lead to none. -/
structure Url where
  scheme : List Char
  authority? : Option (List Char)
  path : List Char
  query? : Option (List Char) := none
  fragment? : Option (List Char) := none
  deriving DecidableEq, Repr

namespace Url

/-! ### Characters -/

/-- A byte behind a percent sign. -/
def percentByte (b : UInt8) : List Char :=
  ['%', (Nat.digitChar (b.toNat / 16)).toUpper, (Nat.digitChar (b.toNat % 16)).toUpper]

/-- A text in which control characters, those outside ASCII and those of `special` are written as
bytes. -/
def percentEncode (special : List Char) (s : List Char) : List Char :=
  s.flatMap fun c =>
    if c.toNat < 0x20 || 0x7E < c.toNat || special.contains c then
      (String.utf8EncodeChar c).flatMap percentByte
    else [c]

/-- The ASCII characters that are written as bytes in fragments. -/
def fragmentSpecials : List Char := [' ', '"', '<', '>', '\x60']

/-- The ASCII characters that are written as bytes in paths. -/
def pathSpecials : List Char := fragmentSpecials ++ ['#', '?', '{', '}']

/-- The ASCII characters that are written as bytes in queries of the web. -/
def querySpecials : List Char := [' ', '"', '#', '<', '>', '\'']

/-- The text without blanks and control characters at its ends, and without tabs and line breaks. -/
def cleaned (s : List Char) : List Char :=
  let isEdge (c : Char) : Bool := c.toNat ≤ 0x20
  ((s.dropWhile isEdge).reverse.dropWhile isEdge).reverse.filter fun c =>
    c ≠ '\t' && c ≠ '\n' && c ≠ '\r'

/-! ### Paths -/

/-- A segment with the escapes of dots written out, for the comparison with dots. -/
def plainDots : List Char → List Char
  | '%' :: '2' :: e :: rest => if e = 'e' || e = 'E' then '.' :: plainDots rest
    else '%' :: '2' :: e :: rest
  | '.' :: rest => '.' :: plainDots rest
  | s => s

/-- Go down the segments from the directories gone through so far, the last of them first: one dot
stays, two go up. -/
def resolve : List (List Char) → List (List Char) → List (List Char)
  | done, [] => done.reverse
  | done, [last] =>
    if plainDots last = ['.', '.'] then ([] :: done.tail).reverse
    else if plainDots last = ['.'] then ([] :: done).reverse
    else (last :: done).reverse
  | done, s :: rest =>
    if plainDots s = ['.', '.'] then resolve done.tail rest
    else if plainDots s = ['.'] then resolve done rest
    else resolve (s :: done) rest

/-- The normal form of a path, whose segments are cut where `isSlash` holds. -/
def normalPath (isSlash : Char → Bool) (s : List Char) : List Char :=
  let segments :=
    match s with
    | c :: rest => if isSlash c then splitAtEach isSlash rest else splitAtEach isSlash s
    | [] => [[]]
  (resolve [] segments).flatMap fun segment => '/' :: percentEncode pathSpecials segment

/-! ### Addresses -/

/-- The schemes of the web, with the ports that go without saying. -/
def webPorts : List (String × Nat) :=
  [("http", 80), ("https", 443), ("ws", 80), ("wss", 443), ("ftp", 21)]

/-- The scheme before the first colon, in lowercase, and what follows. -/
def scheme? (s : List Char) : Option (List Char × List Char) :=
  match splitFirst? ':' s with
  | some (c :: name, rest) =>
    if c.isAlpha && name.all (fun c => c.isAlphanum || c = '+' || c = '-' || c = '.') then
      some ((c :: name).map Char.toLower, rest)
    else none
  | _ => none

/-- The port that digits give; a missing one counts as given. -/
def port? (digits : List Char) : Option Nat :=
  if digits.all Char.isDigit then
    let n := digits.foldl (fun n c => n * 10 + (c.toNat - 48)) 0
    if n ≤ 65535 then some n else none
  else none

/-- The host and the port of an address of the web.  Names of users are left out, and so is the port
that goes without saying. -/
def readAuthority? (defaultPort : Nat) (s : List Char) : Option (List Char) := do
  let hostAndPort := (s.reverse.takeWhile (· != '@')).reverse
  let (name, digits) :=
    match hostAndPort with
    | '[' :: _ =>
      let (inside, rest) := (hostAndPort.takeWhile (· != ']'), hostAndPort.dropWhile (· != ']'))
      (inside ++ rest.take 1, rest.drop 1)
    | _ => (hostAndPort.takeWhile (· != ':'), hostAndPort.dropWhile (· != ':'))
  let host ← Host.parse name
  match digits with
  | [] | [':'] => some host
  | ':' :: ds => do
    let port ← port? ds
    some (if port = defaultPort then host else host ++ ':' :: Nat.toDigits 10 port)
  | _ => none

/-- What stands before and behind the first `sep`, if there is one. -/
def cutAt (sep : Char) (s : List Char) : List Char × Option (List Char) :=
  match splitFirst? sep s with
  | some (before, behind) => (before, some behind)
  | none => (s, none)

/-- The address that a text gives. -/
def parse (text : String) : Option Url := do
  let (scheme, rest) ← scheme? (cleaned text.toList)
  let (rest, fragment) := cutAt '#' rest
  let (rest, query) := cutAt '?' rest
  let fragment? := fragment.map (percentEncode fragmentSpecials)
  match webPorts.lookup (String.ofList scheme) with
  | some port =>
    let isSlash (c : Char) : Bool := c = '/' || c = '\\'
    let rest := rest.dropWhile isSlash
    let authority ← readAuthority? port (rest.takeWhile (!isSlash ·))
    some { scheme, authority? := some authority, path := normalPath isSlash (rest.dropWhile (!isSlash ·))
           query? := query.map (percentEncode querySpecials), fragment? }
  | none =>
    let query? := query.map (percentEncode [' ', '"', '#', '<', '>'])
    match rest with
    | '/' :: '/' :: rest =>
      let path := rest.dropWhile (· != '/')
      some { scheme, authority? := some (rest.takeWhile (· != '/'))
             path := if path.isEmpty then [] else normalPath (· = '/') path, query?, fragment? }
    | rest => some { scheme, authority? := none, path := percentEncode [] rest, query?, fragment? }

/-- Whether the address leads to a host. -/
def hasHost (u : Url) : Bool := u.authority?.any (!·.isEmpty)

/-- Whether requests can be sent to the address. -/
def isHttp (u : Url) : Bool := u.scheme = "http".toList || u.scheme = "https".toList

/-- The text of an address. -/
def text (u : Url) : String :=
  let authority := (u.authority?.map ('/' :: '/' :: ·)).getD []
  let query := (u.query?.map ('?' :: ·)).getD []
  let fragment := (u.fragment?.map ('#' :: ·)).getD []
  String.ofList (u.scheme ++ ':' :: authority ++ u.path ++ query ++ fragment)

end Url

end RepoDocs.Http

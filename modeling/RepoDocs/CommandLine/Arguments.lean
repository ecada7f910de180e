import RepoDocs.Documentation.Basic

/-! The command line: a command with its values, and a configuration file that may be named before or
behind the command.

Words are read from left to right.  A value is only judged when the next option or value begins, or at
the end, so that of two faults the one on the left need not win. -/

namespace RepoDocs.CommandLine

inductive Command where
  | analyze (url : String)
  | generate (url : String) (kind : DocumentationKind) (output? : Option String)
  | file (url path : String)
  | extract (path : String)
  deriving DecidableEq, Repr

/-- A command and the path of the configuration file. -/
structure Invocation where
  command : Command
  config? : Option String
  deriving DecidableEq, Repr

/-- Why a command line asks for nothing that can be done. -/
inductive UsageFault where
  | help
  /-- Nothing is asked for. -/
  | nothing
  | version
  | unknownCommand
  | missingCommand
  | unknownArgument
  /-- An option has no value, or a path is empty. -/
  | missingValue
  /-- A value is given to what takes none. -/
  | unwantedValue
  | repeatedOption
  | invalidKind
  | missingArgument
  deriving DecidableEq, Repr

namespace UsageFault

/-- What the commands are. -/
def usage : String :=
  "\n".intercalate
    ["Analyze a GitHub repository and generate documentation for it", "",
      "  analyze URL                                  Analyze a repository and print its detail",
      "  generate URL --kind KIND [--output FILE]     Analyze it, then generate documentation",
      "  file URL PATH                                Print one file of a repository",
      "  extract PATH                                 Print the structure of a local source file", "",
      "  --config FILE                                A YAML file with settings",
      "  -h, --help                                   Print this",
      "  -V, --version                                Print the version"]

/-- Whether the user asked for what is printed. -/
def isWish : UsageFault → Bool
  | help | version => true
  | _ => false

def message : UsageFault → String
  | help | nothing => usage
  | version => "0.1.0"
  | unknownCommand => "error: unrecognized subcommand"
  | missingCommand => "error: a subcommand is required"
  | unknownArgument => "error: unexpected argument"
  | missingValue => "error: a value is required"
  | unwantedValue => "error: unexpected value"
  | repeatedOption => "error: an option cannot be used multiple times"
  | invalidKind => "error: unknown documentation type"
  | missingArgument => "error: required arguments were not provided"

end UsageFault

/-! ### What a level of the command line takes -/

/-- What may be given: the options with values, which start with two dashes, the values that are told
by their place, and whether the version may be asked for. -/
structure Grammar where
  options : List String
  places : List String
  hasVersion : Bool := false

/-- What stands in front of a command. -/
def topGrammar : Grammar := { options := ["config"], places := [], hasVersion := true }

/-- What stands behind each command. -/
def commandGrammars : List (String × Grammar) :=
  [("analyze", { options := ["config"], places := ["url"] }),
    ("generate", { options := ["config", "kind", "output"], places := ["url"] }),
    ("file", { options := ["config"], places := ["url", "name"] }),
    ("extract", { options := ["config"], places := ["path"] })]

/-- The word that asks for help, which may be followed by a command. -/
def helpWord : String := "help"

/-- Whether a word is a command or asks for help. -/
def isCommand (word : String) : Bool :=
  word = helpWord || commandGrammars.any (·.1 == word)

/-! ### Values -/

/-- The values that have been judged, and the name of the one that is still to be, whose value may
be missing. -/
structure Values where
  judged : List (String × String) := []
  open? : Option (String × Option String) := none
  /-- How many values are told by their place so far. -/
  placed : Nat := 0

namespace Values

/-- What is wrong with a value. -/
def fault? (name value : String) : Option UsageFault :=
  if ["config", "output", "path"].contains name then
    if value.isEmpty then some .missingValue else none
  else if name = "kind" then
    match DocumentationKind.ofText value with
    | .ok _ => none
    | .error _ => some .invalidKind
  else none

/-- Take a value. -/
def add (name value : String) (v : Values) : Except UsageFault Values :=
  if v.judged.any (·.1 == name) then .error .repeatedOption
  else
    match fault? name value with
    | some f => .error f
    | none => .ok { v with judged := v.judged ++ [(name, value)] }

/-- Judge the value that is still to be judged. -/
def settle (v : Values) : Except UsageFault Values :=
  match v.open? with
  | none => .ok v
  | some (_, none) => .error .missingValue
  | some (name, some value) => { v with open? := none }.add name value

/-- The option that waits for its value. -/
def waiting? (v : Values) : Option String :=
  match v.open? with
  | some (name, none) => some name
  | _ => none

def get? (name : String) (v : Values) : Option String := v.judged.lookup name

end Values

/-! ### Words -/

/-- A word in front of which no two dashes stand alone. -/
inductive Word where
  /-- Two dashes alone. -/
  | dashes
  | long (name : String) (value? : Option String)
  | short (letter : Char)
  | plain
  deriving DecidableEq, Repr

def Word.ofString (s : String) : Word :=
  match s.toList with
  | ['-', '-'] => .dashes
  | '-' :: '-' :: rest =>
    let name := String.ofList (rest.takeWhile (· != '='))
    match rest.dropWhile (· != '=') with
    | [] => .long name none
    | _ :: value => .long name (some (String.ofList value))
  | ['-'] => .plain
  | '-' :: letter :: _ => .short letter
  | _ => .plain

/-- Answer to a wish that ends the reading once the value before it is judged. -/
def wish (v : Values) (f : UsageFault) : Except UsageFault Values := do
  let _ ← v.settle
  .error f

/-- Read an option. -/
def readLong (g : Grammar) (v : Values) (name : String) (value? : Option String) :
    Except UsageFault Values :=
  if g.options.contains name then do
    let v ← v.settle
    match value? with
    | some value => v.add name value
    | none => return { v with open? := some (name, none) }
  else if name = "help" || (g.hasVersion && name = "version") then
    if value?.isSome then .error .unwantedValue
    else wish v (if name = "help" then .help else .version)
  else .error .unknownArgument

/-- Read an option that is one letter. -/
def readShort (g : Grammar) (v : Values) (letter : Char) : Except UsageFault Values :=
  if letter = 'h' then wish v .help
  else if g.hasVersion && letter = 'V' then wish v .version
  else .error .unknownArgument

/-- Read a value that is told by its place. -/
def readPlaced (g : Grammar) (v : Values) (word : String) : Except UsageFault Values :=
  match g.places[v.placed]? with
  | none => .error .unknownArgument
  | some name => do
    let v ← v.settle
    return { v with open? := some (name, some word), placed := v.placed + 1 }

/-- Read a word behind two dashes that stand alone, or one without dashes that is no value of an
option. -/
def readPlain (g : Grammar) (v : Values) (word : String) : Except UsageFault Values :=
  match v.open? with
  | some (name, none) => .ok { v with open? := some (name, some word) }
  | _ => readPlaced g v word

/-- Read the words behind a command. -/
def readWords (g : Grammar) (v : Values) : (onlyPlaces : Bool) → List String →
    Except UsageFault Values
  | _, [] => v.settle
  | true, word :: rest => do readWords g (← readPlaced g v word) true rest
  | false, word :: rest =>
    match Word.ofString word with
    | .dashes => readWords g v true rest
    | .long name value? => do readWords g (← readLong g v name value?) false rest
    | .short letter => do readWords g (← readShort g v letter) false rest
    | .plain => do readWords g (← readPlain g v word) false rest

/-! ### Commands -/

/-- A value that a command needs. -/
def need (v : Values) (name : String) : Except UsageFault String :=
  match v.get? name with
  | some value => .ok value
  | none => .error .missingArgument

/-- The command that a word names, with its values. -/
def Command.ofValues (word : String) (v : Values) : Except UsageFault Command := do
  match word with
  | "analyze" => return analyze (← need v "url")
  | "generate" =>
    let url ← need v "url"
    match DocumentationKind.ofText (← need v "kind") with
    | .ok kind => return generate url kind (v.get? "output")
    | .error _ => throw .invalidKind
  | "file" => return file (← need v "url") (← need v "name")
  | _ => return extract (← need v "path")

/-- What the words behind a wish for help ask for. -/
def helpOn : List String → UsageFault
  | [] => .help
  | [word] => if isCommand word then .help else .unknownCommand
  | _ => .unknownCommand

/-- What a word asks for that is no command where one should be. -/
def strayWord (behindDashes : Bool) (word : String) : UsageFault :=
  if behindDashes && isCommand word then .unknownArgument else .unknownCommand

/-- What is asked for where no command is given. -/
def noCommand (v : Values) : UsageFault :=
  match v.settle with
  | .error f => f
  | .ok v => if v.judged.isEmpty then .nothing else .missingCommand

/-- Read a command, behind values that are not judged before those of the command. -/
def readCommand (v : Values) (word : String) (g : Grammar) (rest : List String) :
    Except UsageFault Invocation := do
  let inner ← readWords g {} false rest
  let command ← Command.ofValues word inner
  let outer ← v.settle
  return { command, config? := inner.get? "config" <|> outer.get? "config" }

/-- Read the words of a command line up to the command, and then the command. -/
def readTop (v : Values) : List String → Except UsageFault Invocation
  | [] => .error (noCommand v)
  | word :: rest =>
    match v.waiting?, commandGrammars.lookup word with
    | none, some g => readCommand v word g rest
    | _, _ =>
      if v.waiting?.isNone && word = helpWord then .error (helpOn rest)
      else
        match Word.ofString word with
        | .dashes =>
          match rest with
          | [] => .error (noCommand v)
          | next :: _ => .error (strayWord true next)
        | .long name value? => do readTop (← readLong topGrammar v name value?) rest
        | .short letter => do readTop (← readShort topGrammar v letter) rest
        | .plain =>
          match v.waiting? with
          | some name => readTop { v with open? := some (name, some word) } rest
          | none => .error (strayWord false word)

/-- What a command line asks for. -/
def Invocation.parse (words : List String) : Except UsageFault Invocation := readTop {} words

end RepoDocs.CommandLine

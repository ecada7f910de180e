import RepoDocs.Outline.Python
import RepoDocs.Outline.Script

/-! How a source file is outlined, which its extension decides. -/

namespace RepoDocs

/-- How a file is outlined. -/
inductive SourceKind where
  | script (d : Script.Dialect)
  | python
  | unsupported
  deriving DecidableEq, Repr

/-- The kind of a file by the extension of its name, in letters of either case. -/
def SourceKind.ofFile (fileName : String) : SourceKind :=
  match (Text.splitLast? '.' fileName).map (Text.asciiLower ·.2) with
  | some "py" => .python
  | some "js" | some "jsx" | some "mjs" | some "cjs" => .script .javascript
  | some "ts" | some "mts" | some "cts" => .script .typescript
  | some "tsx" => .script .tsx
  | _ => .unsupported

/-- The outline of a source file. -/
def outline (fileName source : String) : FileOutline :=
  match SourceKind.ofFile fileName with
  | .script d => Outline.ofScript fileName source d
  | .python => Outline.Python.outline fileName source
  | .unsupported => { fileName, language := .javascript }

/-- The line of the first error that keeps a file from being outlined. -/
def outlineErrorLine? (fileName source : String) : Option Nat :=
  match SourceKind.ofFile fileName with
  | .script d => Outline.scriptErrorLine? source d
  | _ => none

end RepoDocs

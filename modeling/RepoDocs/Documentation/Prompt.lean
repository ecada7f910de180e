import RepoDocs.Documentation.Artifact

/-! What a language model is asked to write, in its words. -/

namespace RepoDocs.Prompt

open Json

/-- The files that the prompt for a readme names at most. -/
def listedFiles : Nat := 20

/-- The characters of each file that the prompt for a quality report holds at most. -/
def excerptLength : Nat := 2000

/-- What the model is told about comment suggestions before it sees a file. -/
def commentsRole : String :=
  "\n".intercalate
    ["You are a code review expert. Suggest comments that would help a reader of the provided code.",
      "Return a JSON object of this shape:",
      "\x7b\"suggestions\": [\x7b\"line\": number, \"comment\": \"suggestion text\", " ++
        "\"type\": \"improvement|explanation|warning\"\x7d]\x7d",
      "",
      "Focus on complex logic that needs explanation, likely bugs, performance and security concerns.",
      "Skip comments that only restate the code."]

/-- What the model is told about quality reports before it sees the files. -/
def qualityRole : String :=
  "\n".intercalate
    ["You are a code quality expert. Assess the provided files.",
      "Return a JSON object of this shape:",
      "\x7b",
      "  \"score\": number (0-100),",
      "  \"issues\": [\x7b\"file\": \"filename\", \"line\": number, " ++
        "\"type\": \"error|warning|suggestion\", \"message\": \"description\"\x7d],",
      "  \"suggestions\": [\"improvement suggestion\"]",
      "\x7d",
      "",
      "Consider structure, adherence to common practice, potential bugs or security issues, " ++
        "performance and maintainability."]

/-- The names of the listed files, with dots behind them if there are more. -/
def fileList (files : List String) : String :=
  ", ".intercalate (files.take listedFiles) ++ (if listedFiles < files.length then "..." else "")

/-- The prompt for a readme. -/
def readme (r : ReadmeRequest) : String :=
  let description := r.description?.getD "No description provided"
  let tree := (Value.array (FileNode.listToJson r.tree)).pretty
  let files := fileList r.files
  s!"Generate a comprehensive README.md for a GitHub repository.\n\nRepository: {r.name}\n" ++
    s!"Description: {description}\nFiles: {files}\n\nStructure:\n{tree}\n\n" ++
    "Include a title and description, installation instructions, usage examples, a features list, " ++
    "contributing guidelines and license information. Use markdown formatting."

/-- A function as the prompt for an API reference shows it. -/
def apiEntry (f : ApiFunction) : String :=
  let parameters := ", ".intercalate f.parameters
  let returnType := f.returnType?.getD "unknown"
  let description := f.description?.getD "No description"
  s!"Function: {f.name}\nParameters: {parameters}\nReturn Type: {returnType}\n" ++
    s!"Description: {description}\n"

/-- The prompt for an API reference. -/
def apiDocs (functions : List ApiFunction) : String :=
  let listing := "\n".intercalate (functions.map apiEntry)
  "Generate API documentation in markdown for the following functions:\n\n" ++ listing ++
    "\nCover signatures, parameters, return values, usage examples and error handling."

/-- The prompt for comment suggestions. -/
def comments (source file : String) : String :=
  s!"Analyze this {file} file and suggest code comments:\n\n```\n{source}\n```"

/-- The first characters of a text, but no more than `limit`: the text up to the place where the next
character begins, or all of it when there is none. -/
def excerpt (limit : Nat) (text : String) : String :=
  match text.positions.atIdxSlow? limit with
  | some next => (text.sliceTo next.val).copy
  | none => text

/-- A file as the prompt for a quality report shows it, with dots where it was cut. -/
def qualityEntry (f : SourceFile) : String :=
  let shown := excerpt excerptLength f.content
  let dots := if shown.utf8ByteSize < f.content.utf8ByteSize then "..." else ""
  s!"File: {f.name}\n```\n{shown}{dots}\n```\n"

/-- The prompt for a quality report. -/
def quality (files : List SourceFile) : String :=
  "Analyze these code files for quality:\n" ++ "\n".intercalate (files.map qualityEntry)

end RepoDocs.Prompt

import StatusWatch.Toml.Scalar
import StatusWatch.Toml.Table

/-!
# TOML documents

- `readValue`: a value at the front of a text.
- `Section`: a header with the assignments below it; a document is a list of
  assignments followed by sections.
- `read?`: the settings that a text defines, if it is a TOML document.

Keys have at most `maxDepth` names, and values are nested in at most as many lists
and inline tables.
-/

namespace StatusWatch.Toml

/-- How many names a key has at most, and how deep values are nested at most. -/
def maxDepth : Nat := 79

/-! ## Values -/

/-- The table that stands in braces. -/
def inlineTable (assignments : List Assignment) : Option Setting :=
  (defineAll assignments []).map fun fields => .table (settings fields)

mutual

/-- A value at the front of a text; `depth` bounds the nesting that is left. -/
def readValue : Nat → Nat → Input → Option (Setting × Input)
  | 0, _, _ => none
  | fuel + 1, depth, cs =>
    match cs with
    | '"' :: _ => (readString cs).map fun r => (.text r.1, r.2)
    | '\x27' :: _ => (readString cs).map fun r => (.text r.1, r.2)
    | '[' :: rest => if depth = 0 then none else readItems fuel (depth - 1) [] rest
    | '\x7b' :: rest =>
      if depth = 0 then none
      else match skipBlanks rest with
        | '\x7d' :: rest => some (.table [], rest)
        | rest => readPairs fuel (depth - 1) [] rest
    | _ => readScalar cs

/-- The items of a list up to its closing bracket; a comma may stand after the last. -/
def readItems : Nat → Nat → List Setting → Input → Option (Setting × Input)
  | 0, _, _, _ => none
  | fuel + 1, depth, done, cs =>
    match skipSpace cs.length cs with
    | ']' :: rest => some (.list done.reverse, rest)
    | cs => do
      let (item, rest) ← readValue fuel depth cs
      match skipSpace rest.length rest with
      | ',' :: rest => readItems fuel depth (item :: done) rest
      | ']' :: rest => some (.list (item :: done).reverse, rest)
      | _ => none

/-- The assignments of an inline table up to its closing brace. -/
def readPairs : Nat → Nat → List Assignment → Input → Option (Setting × Input)
  | 0, _, _, _ => none
  | fuel + 1, depth, done, cs => do
    let (key, rest) ← readKey maxDepth cs
    let rest ← readMark '=' rest
    let (value, rest) ← readValue fuel depth (skipBlanks rest)
    let done := (key, value) :: done
    match skipBlanks rest with
    | ',' :: rest => readPairs fuel depth done rest
    | '\x7d' :: rest => (inlineTable done.reverse).map fun table => (table, rest)
    | _ => none

end

/-! ## Lines -/

/-- The header of a section. -/
inductive Header where
  | table (key : Key)
  | item (key : Key)

/-- What a line holds. -/
inductive Line where
  | header (header : Header)
  | assignment (assignment : Assignment)

/-- A header, after its first bracket. -/
def readHeader (cs : Input) : Option (Line × Input) :=
  match cs with
  | '[' :: cs => do
    let (key, rest) ← readKey maxDepth cs
    let rest ← readMark ']' (← readMark ']' rest)
    return (.header (.item key), rest)
  | cs => do
    let (key, rest) ← readKey maxDepth cs
    let rest ← readMark ']' rest
    return (.header (.table key), rest)

/-- A key, an equals sign and a value. -/
def readAssignment (cs : Input) : Option (Line × Input) := do
  let (key, rest) ← readKey maxDepth cs
  let rest := skipBlanks (← readMark '=' rest)
  let (value, rest) ← readValue (rest.length + 1) maxDepth rest
  return (.assignment (key, value), rest)

/-- All lines of a text. Lines without a header and an assignment are skipped. -/
def readLines : Nat → List Line → Input → Option (List Line)
  | 0, _, _ => none
  | fuel + 1, done, cs =>
    match skipSpace cs.length cs with
    | [] => some done.reverse
    | '#' :: rest => if rest.dropWhile isPlain = [] then some done.reverse else none
    | '[' :: rest => do
      let (line, rest) ← readHeader rest
      readLines fuel (line :: done) (← endLine rest)
    | cs => do
      let (line, rest) ← readAssignment cs
      readLines fuel (line :: done) (← endLine rest)

/-! ## Sections -/

/-- A header with the assignments below it. -/
structure Section where
  header : Header
  body : List Assignment

/-- The assignments before the first header, and the sections. -/
def sections : List Line → List Assignment × List Section
  | [] => ([], [])
  | .assignment a :: rest =>
    let (body, following) := sections rest
    (a :: body, following)
  | .header h :: rest =>
    let (body, following) := sections rest
    ([], ⟨h, body⟩ :: following)

/-- Define what a section says. -/
def Section.define (s : Section) : Fields → Option Fields :=
  match s.header with
  | .table key => openTable key s.body
  | .item key => appendTable key s.body

/-- The characters of a text; a byte order mark at its front does not belong to it. -/
def content (text : String) : List Char :=
  match text.toList with
  | '\ufeff' :: rest => rest
  | cs => cs

/-- The settings that a text defines. -/
def read? (text : String) : Option (List (String × Setting)) := do
  let cs := content text
  let lines ← readLines (cs.length + 1) [] cs
  let (body, following) := sections lines
  let fields ← defineAll body []
  let fields ← following.foldlM (fun fields s => s.define fields) fields
  return settings fields

end StatusWatch.Toml

import StatusWatch.Json.Reader

/-!
# TOML: blanks, comments, strings and keys

Readers for the parts of a TOML document that are only text. Each takes the text
that is left and returns what it read with the rest.

- `skipBlanks`, `endLine`, `skipSpace`: what may stand between the parts.
- `readString`: the four kinds of strings.
- `readKey`: a key, which may be several names with dots between them.
-/

namespace StatusWatch.Toml

/-- Text still to be read. -/
abbrev Input := List Char

/-! ## Between the parts -/

def isBlank (c : Char) : Bool := c = ' ' || c = '\t'

def skipBlanks (cs : Input) : Input := cs.dropWhile isBlank

/-- Whether a character may stand for itself: no control character but the tab. -/
def isPlain (c : Char) : Bool := c = '\t' || (0x20 ≤ c.toNat && c.toNat ≠ 0x7f)

/-- The text after a line break, if it starts with one. -/
def readNewline : Input → Option Input
  | '\n' :: rest => some rest
  | '\r' :: '\n' :: rest => some rest
  | _ => none

def skipComment : Input → Input
  | '#' :: rest => rest.dropWhile isPlain
  | cs => cs

/-- The rest of a line that holds nothing more than a comment. -/
def endLine (cs : Input) : Option Input :=
  match skipComment (skipBlanks cs) with
  | [] => some []
  | rest => readNewline rest

/-- Skip blanks and line breaks. -/
def skipLines : Input → Input
  | '\r' :: '\n' :: rest => skipLines rest
  | c :: rest => if isBlank c || c = '\n' then skipLines rest else c :: rest
  | [] => []

/-- Skip blanks, line breaks and comments; `fuel` bounds the number of comments. -/
def skipSpace : Nat → Input → Input
  | 0, cs => cs
  | fuel + 1, cs =>
    match skipLines cs with
    | '#' :: rest =>
      match readNewline (rest.dropWhile isPlain) with
      | some rest => skipSpace fuel rest
      | none => '#' :: rest
    | cs => cs

/-! ## Strings -/

/-- The value of a run of hexadecimal digits of the given length. -/
def readHex : Nat → Nat → Input → Option (Nat × Input)
  | 0, n, cs => some (n, cs)
  | _ + 1, _, [] => none
  | width + 1, n, c :: rest => do
    let d ← Json.hexValue? c
    readHex width (16 * n + d) rest

/-- A code point of the given number of digits. -/
def readCodePoint (width : Nat) (cs : Input) : Option (Char × Input) := do
  let (n, rest) ← readHex width 0 cs
  if n.isValidChar then some (Char.ofNat n, rest) else none

/-- The character of an escape, after its backslash. -/
def readEscape : Input → Option (Char × Input)
  | 'b' :: rest => some ('\x08', rest)
  | 't' :: rest => some ('\t', rest)
  | 'n' :: rest => some ('\n', rest)
  | 'f' :: rest => some ('\x0c', rest)
  | 'r' :: rest => some ('\r', rest)
  | '"' :: rest => some ('"', rest)
  | '\\' :: rest => some ('\\', rest)
  | 'u' :: rest => readCodePoint 4 rest
  | 'U' :: rest => readCodePoint 8 rest
  | _ => none

/-- The characters of a string in double quotes up to its end; `done` holds those read,
the last one first. -/
def readBasic : Nat → List Char → Input → Option (List Char × Input)
  | 0, _, _ => none
  | _ + 1, _, [] => none
  | _ + 1, done, '"' :: rest => some (done.reverse, rest)
  | fuel + 1, done, '\\' :: rest => do
    let (c, rest) ← readEscape rest
    readBasic fuel (c :: done) rest
  | fuel + 1, done, c :: rest =>
    if isPlain c then readBasic fuel (c :: done) rest else none

/-- The characters of a string in single quotes up to its end. -/
def readLiteral (cs : Input) : Option (List Char × Input) :=
  let body := cs.takeWhile fun c => isPlain c && c ≠ '\x27'
  match cs.drop body.length with
  | '\x27' :: rest => some (body, rest)
  | _ => none

/-- The text after an escaped line break, after its backslash: the break takes the
blanks and lines that follow with it. -/
def readContinuation (cs : Input) : Option Input :=
  (readNewline (skipBlanks cs)).map skipLines

/-- The characters of a string in three quotes up to its end. One or two quotes may
stand in it, at its end too, so five in a row are two and the end. -/
def readBlock (quote : Char) (escapes : Bool) : Nat → List Char → Input →
    Option (List Char × Input)
  | 0, _, _ => none
  | _ + 1, _, [] => none
  | fuel + 1, done, c :: rest =>
    if c = quote then
      let run := 1 + (rest.takeWhile (· = quote)).length
      let rest := rest.drop (run - 1)
      if run < 3 then readBlock quote escapes fuel (List.replicate run quote ++ done) rest
      else if run ≤ 5 then some ((List.replicate (run - 3) quote ++ done).reverse, rest)
      else none
    else if escapes && c = '\\' then
      match readContinuation rest with
      | some rest => readBlock quote escapes fuel done rest
      | none => do
        let (e, rest) ← readEscape rest
        readBlock quote escapes fuel (e :: done) rest
    else
      match readNewline (c :: rest) with
      | some rest => readBlock quote escapes fuel ('\n' :: done) rest
      | none => if isPlain c then readBlock quote escapes fuel (c :: done) rest else none

/-- A line break right after the opening quotes does not belong to the string. -/
def readBlockBody (quote : Char) (escapes : Bool) (cs : Input) : Option (List Char × Input) :=
  let cs := (readNewline cs).getD cs
  readBlock quote escapes (cs.length + 1) [] cs

/-- A string in one pair of quotes. -/
def readQuoted : Input → Option (List Char × Input)
  | '"' :: rest => readBasic (rest.length + 1) [] rest
  | '\x27' :: rest => readLiteral rest
  | _ => none

/-- A string of any kind. -/
def readString : Input → Option (String × Input) := fun cs =>
  let text := match cs with
    | '"' :: '"' :: '"' :: rest => readBlockBody '"' true rest
    | '\x27' :: '\x27' :: '\x27' :: rest => readBlockBody '\x27' false rest
    | _ => readQuoted cs
  text.map fun r => (String.ofList r.1, r.2)

/-! ## Keys -/

/-- Where a value is defined: the names of the tables on the way, and its own. -/
structure Key where
  path : List String
  name : String
deriving DecidableEq, Inhabited

namespace Key

def names (k : Key) : List String := k.path ++ [k.name]

/-- The key with one more table on the way. -/
def under (k : Key) (table : String) : Key := { k with path := table :: k.path }

end Key

def isBareKeyChar (c : Char) : Bool := c.isAlphanum || c = '_' || c = '-'

/-- One name of a key. -/
def readName (cs : Input) : Option (String × Input) :=
  match cs with
  | '"' :: _ => (readQuoted cs).map fun r => (String.ofList r.1, r.2)
  | '\x27' :: _ => (readQuoted cs).map fun r => (String.ofList r.1, r.2)
  | _ =>
    let name := cs.takeWhile isBareKeyChar
    if name = [] then none else some (String.ofList name, cs.dropWhile isBareKeyChar)

/-- A key with blanks around its names. `depth` bounds the number of names. -/
def readKey : Nat → Input → Option (Key × Input)
  | 0, _ => none
  | depth + 1, cs => do
    let (name, rest) ← readName (skipBlanks cs)
    match skipBlanks rest with
    | '.' :: rest =>
      let (key, rest) ← readKey depth rest
      return (key.under name, rest)
    | rest => return (⟨[], name⟩, rest)

end StatusWatch.Toml

import StatusWatch.Settings.Value

/-!
# Settings in environment variables

A variable names a setting when its name, taken without regard to case, starts with
`mark`: what follows is the name of the setting, with two underscores where that
has a dot. The text of the variable is read as a truth value, a whole number or a
float if it is written as one.

- `settingName?`: the setting that a variable names.
- `settingValue`: the value that the text of a variable stands for.
- `settings`: what all variables say.
-/

namespace StatusWatch.Environment

/-- What the names of all variables start with, in small letters. -/
def mark : List Char := ['v', 'i', 'g', 'i', 'l', '_']

/-- Every pair of underscores becomes a dot. -/
def dotted : List Char → List Char
  | '_' :: '_' :: rest => '.' :: dotted rest
  | c :: rest => c :: dotted rest
  | [] => []

/-- The setting that a variable names. -/
def settingName? (name : String) : Option String :=
  let name := (Setting.foldCase name).toList
  if mark.isPrefixOf name then some (String.ofList (dotted (name.drop mark.length)))
  else none

/-- The setting whose text is a list with commas between its items. -/
def listSetting : String := "metrics.label_projection"

/-- The texts between the separators. -/
def splitAt (separator : Char) : List Char → List (List Char)
  | [] => [[]]
  | c :: rest =>
    if c = separator then [] :: splitAt separator rest
    else match splitAt separator rest with
      | [] => [[c]]
      | first :: others => (c :: first) :: others

/-- A signed number of 64 bits. -/
def readInt64? (cs : List Char) : Option Int :=
  (Decimal.readInt? cs).filter fun n => -0x8000000000000000 ≤ n ∧ n < 0x8000000000000000

/-- The value that the text of a variable stands for. -/
def settingValue (name text : String) : Setting :=
  match Setting.foldCase text with
  | "true" => .bool true
  | "false" => .bool false
  | _ =>
    match readInt64? text.toList, Decimal.read? text.toList with
    | some n, _ => .int n
    | none, some x => .float x
    | none, none =>
      if name = listSetting then
        .list ((splitAt ',' text.toList).map fun item => .text (String.ofList item))
      else .text text

/-- What a list of variables with their texts says. -/
def settings (environment : List (String × String)) : List (String × Setting) :=
  environment.filterMap fun v =>
    (settingName? v.1).map fun name => (name, settingValue name v.2)

end StatusWatch.Environment

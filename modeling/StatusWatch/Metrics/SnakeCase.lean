/-!
# Snake case

Kind names such as `NodePool` or `EC2NodeClass` become the words `node_pool` and
`ec2_node_class` of metric names.

A word ends before a capital letter that follows a small letter or a digit, and
before the last capital of a run of capitals when a small letter follows it. Every
run of other characters separates words too. Only ASCII letters and digits are kept.

- `startsWord`: whether a capital letter starts a word.
- `snakeCase`: the words in lower case, joined by single underscores.
-/

namespace StatusWatch

/-- Whether a capital letter starts a new word, by the characters before and after it. -/
def startsWord (before after : Option Char) : Bool :=
  match before with
  | none => false
  | some b => b.isLower || b.isDigit || (b.isUpper && after.any Char.isLower)

/-- The words of a text joined by underscores; `before` is the preceding character and
`joined` tells whether an underscore was written last. -/
def snakeWords (before : Option Char) (joined : Bool) : List Char → List Char
  | [] => []
  | c :: rest =>
    if !c.isAlphanum then
      if joined then snakeWords (some c) true rest else '_' :: snakeWords (some c) true rest
    else if c.isUpper && startsWord before rest.head? && !joined then
      '_' :: c.toLower :: snakeWords (some c) false rest
    else c.toLower :: snakeWords (some c) false rest

/-- The text without underscores at its ends. -/
def trimUnderscores (cs : List Char) : List Char :=
  ((cs.dropWhile (· = '_')).reverse.dropWhile (· = '_')).reverse

/-- The words of a text in lower case, joined by underscores. -/
def snakeCase (text : String) : String :=
  String.ofList (trimUnderscores (snakeWords none false text.toList))

end StatusWatch

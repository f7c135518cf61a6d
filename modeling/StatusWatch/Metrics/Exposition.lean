import StatusWatch.Decimal.Shortest
import StatusWatch.Metrics.Registry
import StatusWatch.Text.Quoted

/-!
# Showing metrics

What a registry shows: its registered families that have series, by name, each with its
series in the order of their label values, the labels taken in the order of their names.

- `Shown`: a family as it is shown.
- `Registry.gather`: everything a registry shows.
- `Registry.exposition`: the text exposition format.
- `Registry.describe`: the registry in one line.
-/

namespace StatusWatch.Metrics

/-! ## Gathering -/

/-- The value of a series. -/
inductive Sample where
  | number (value : Float)
  | count (n : Nat)
  | histogram (h : Histogram)

/-- A series as it is shown, with its labels by name. -/
structure ShownSeries where
  labels : List (String × String)
  sample : Sample

inductive FamilyType where
  | gauge
  | counter
  | histogram
deriving DecidableEq

/-- A family as it is shown. -/
structure Shown where
  name : String
  help : String
  type : FamilyType
  series : List ShownSeries

/-- Whether a list of values comes no later than another of the same length. -/
def valuesNotAfter : List String → List String → Bool
  | a :: as, b :: bs => a < b || (a = b && valuesNotAfter as bs)
  | [], _ => true
  | _ :: _, [] => false

/-- Names with values, by name. -/
def byName (labels : List (String × String)) : List (String × String) :=
  labels.mergeSort fun a b => a.1 ≤ b.1

/-- The series of a family, in the order in which they are shown. -/
def Family.shownSeries {α : Type} (f : Family α) (sample : α → Sample) : List ShownSeries :=
  (f.vec.series.map fun s =>
    (⟨byName (f.descriptor.labelNames.zip s.1), sample s.2⟩ : ShownSeries)).mergeSort fun a b =>
      valuesNotAfter (a.labels.map (·.2)) (b.labels.map (·.2))

namespace Registry

/-- The name under which a family is shown. -/
def shownName (r : Registry) (name : String) : String :=
  if r.scope = "" then name else r.scope ++ "_" ++ name

/-- A registered family as it is shown. -/
def show? (r : Registry) (c : Collector) : Option Shown :=
  let d := c.descriptor
  let shown (type : FamilyType) (series : List ShownSeries) : Shown :=
    { name := r.shownName d.name, help := d.help, type, series }
  match c with
  | .gauge ref => (r.gauges[ref.index]?).map fun f =>
      shown .gauge (f.shownSeries .number)
  | .counter ref => (r.counters[ref.index]?).map fun f =>
      shown .counter (f.shownSeries .count)
  | .histogram ref => (r.histograms[ref.index]?).map fun h =>
      shown .histogram (h.family.shownSeries .histogram)

/-- Everything the registry shows, by name. Families without series are not shown. -/
def gather (r : Registry) : List Shown :=
  (r.registered.values.filterMap r.show?).filter fun s => !s.series.isEmpty

/-- The registry in one line. -/
def describe (r : Registry) : String :=
  "MetricsRegistry \x7b namespace: " ++ Text.quoted r.scope ++ " \x7d"

end Registry

/-! ## Text -/

def FamilyType.text : FamilyType → String
  | .gauge => "gauge"
  | .counter => "counter"
  | .histogram => "histogram"

/-- Help texts are written in one line. -/
def escapeHelp (s : String) : String :=
  String.ofList <| s.toList.flatMap fun c =>
    if c = '\\' then ['\\', '\\'] else if c = '\n' then ['\\', 'n'] else [c]

/-- Label values are written in one line between double quotes. -/
def escapeValue (s : String) : String :=
  String.ofList <| s.toList.flatMap fun c =>
    if c = '\\' then ['\\', '\\'] else if c = '\n' then ['\\', 'n']
    else if c = '"' then ['\\', '"'] else [c]

/-- Labels in braces; nothing if there are none. -/
def labelText (labels : List (String × String)) : String :=
  if labels.isEmpty then ""
  else
    "\x7b" ++ ",".intercalate (labels.map fun l => l.1 ++ "=\"" ++ escapeValue l.2 ++ "\"") ++
      "\x7d"

/-- One line of a series. -/
def sampleLine (name : String) (labels : List (String × String)) (value : String) : String :=
  name ++ labelText labels ++ " " ++ value ++ "\n"

/-- The lines of a series. -/
def ShownSeries.lines (name : String) (s : ShownSeries) : List String :=
  match s.sample with
  | .number x => [sampleLine name s.labels (Decimal.render x)]
  | .count n => [sampleLine name s.labels (Decimal.render (Float.ofNat n))]
  | .histogram h =>
    let bucket (bound : String) (n : Nat) : String :=
      sampleLine (name ++ "_bucket") (s.labels ++ [("le", bound)]) (toString n)
    h.buckets.map (fun b => bucket (Decimal.render b.1) b.2) ++
      [bucket "+Inf" h.count,
        sampleLine (name ++ "_sum") s.labels (Decimal.render h.sum),
        sampleLine (name ++ "_count") s.labels (toString h.count)]

/-- The text of a family: help, type and series. -/
def Shown.render (s : Shown) : String :=
  String.join <|
    ["# HELP " ++ s.name ++ " " ++ escapeHelp s.help ++ "\n",
      "# TYPE " ++ s.name ++ " " ++ s.type.text ++ "\n"] ++
    s.series.flatMap (ShownSeries.lines s.name)

/-- The text exposition of everything the registry shows. -/
def Registry.exposition (r : Registry) : String := String.join (r.gather.map Shown.render)

end StatusWatch.Metrics

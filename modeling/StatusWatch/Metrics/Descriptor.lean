/-!
# Descriptors of metric families

- `Descriptor`: the name, help text and label names of a family.
- `MetricError`: what can go wrong with families and their registration.
- `Descriptor.of`: a descriptor whose parts are well-formed.
-/

namespace StatusWatch.Metrics

/-- What can go wrong with metric families. -/
inductive MetricError where
  | emptyHelp
  | badName (name : String)
  | badLabelName (name : String)
  | repeatedLabelName (name : String)
  /-- A family of this name is registered. -/
  | alreadyRegistered (name : String)
  /-- A family of this name was registered before with another help text or other labels. -/
  | inconsistent (name : String)
  | notRegistered (name : String)
deriving DecidableEq

/-- The name, help text and label names of a family. -/
structure Descriptor where
  name : String
  help : String
  labelNames : List String
deriving DecidableEq, Inhabited

/-- A letter or an underscore, then letters, digits and underscores; names of families may
hold colons too. -/
def isMetricName (name : String) : Bool :=
  match name.toList with
  | [] => false
  | c :: rest =>
    (c.isAlpha || c = '_' || c = ':') && rest.all fun c => c.isAlphanum || c = '_' || c = ':'

/-- A letter or an underscore, then letters, digits and underscores. -/
def isLabelName (name : String) : Bool :=
  match name.toList with
  | [] => false
  | c :: rest => (c.isAlpha || c = '_') && rest.all fun c => c.isAlphanum || c = '_'

/-- Check label names in order: each well-formed and none repeated. -/
def checkLabelNames : List String → List String → Except MetricError Unit
  | _, [] => .ok ()
  | seen, name :: names =>
    if !isLabelName name then .error (.badLabelName name)
    else if name ∈ seen then .error (.repeatedLabelName name)
    else checkLabelNames (name :: seen) names

/-- The descriptor with the given parts, if they are well-formed. -/
def Descriptor.of (name help : String) (labelNames : List String) :
    Except MetricError Descriptor :=
  if help = "" then .error .emptyHelp
  else if !isMetricName name then .error (.badName name)
  else (checkLabelNames [] labelNames).map fun _ => ⟨name, help, labelNames⟩

/-- What all families of one name must have in common: the help text and the set of label
names. -/
def Descriptor.dimensions (d : Descriptor) : String × List String :=
  (d.help, d.labelNames.mergeSort)

end StatusWatch.Metrics

import StatusWatch.Decoding

/-!
# Names of resources and kinds

A resource is identified by its namespace and name, its kind by API group and kind
name. Resources without a namespace are cluster-scoped.

- `ResourceKey`: namespace and name, ordered by namespace and then name.
- `ResourceKey.render`, `ResourceKey.parse`: the text form `namespace/name`, without
  the separator for cluster-scoped resources. Parsing accepts an empty namespace too.
- `GroupKind`: group and kind, shown as `Kind.group`.
- `GroupKind.ofApiVersion`: the group is what precedes the last separator of an API
  version.
-/

namespace StatusWatch

/-! ## Resource keys -/

/-- Identity of a resource across observations; `ns` is empty for cluster-scoped ones. -/
structure ResourceKey where
  ns : String
  name : String
deriving DecidableEq, Inhabited

namespace ResourceKey

instance : LT ResourceKey where
  lt a b := a.ns < b.ns ∨ (a.ns = b.ns ∧ a.name < b.name)

instance : DecidableLT ResourceKey := fun a b =>
  inferInstanceAs (Decidable (a.ns < b.ns ∨ (a.ns = b.ns ∧ a.name < b.name)))

instance : StrictOrder ResourceKey where
  irrefl a h := h.elim (String.lt_irrefl _) fun h => String.lt_irrefl _ h.2
  trans := by
    rintro a b c (h | ⟨h, h'⟩) (g | ⟨g, g'⟩)
    · exact Or.inl (String.lt_trans h g)
    · exact Or.inl (g ▸ h)
    · exact Or.inl (h ▸ g)
    · exact Or.inr ⟨h.trans g, String.lt_trans h' g'⟩
  connected := by
    intro a b h g
    have hns : a.ns = b.ns :=
      StrictOrder.connected (fun e => h (Or.inl e)) (fun e => g (Or.inl e))
    have hname : a.name = b.name :=
      StrictOrder.connected (fun e => h (Or.inr ⟨hns, e⟩)) (fun e => g (Or.inr ⟨hns.symm, e⟩))
    cases a
    cases b
    simp_all

/-- The key of a resource without a namespace. -/
def clusterScoped (name : String) : ResourceKey := ⟨"", name⟩

def isClusterScoped (k : ResourceKey) : Bool := k.ns = ""

/-- The text form: the name alone when there is no namespace. -/
def render (k : ResourceKey) : String :=
  if k.ns = "" then k.name else k.ns ++ "/" ++ k.name

/-- Why a text is no key. -/
inductive ParseError where
  | empty
  | emptyName (text : String)
  | tooManySegments (text : String)
deriving DecidableEq

def ParseError.message : ParseError → String
  | empty => "resource key is empty"
  | emptyName text => "resource key " ++ Text.quoted text ++ " has an empty name"
  | tooManySegments text => "resource key " ++ Text.quoted text ++ " has more than one separator"

/-- Read a key: at most one separator, and a name behind it. -/
def parse (text : String) : Except ParseError ResourceKey :=
  if text = "" then .error .empty
  else
    match text.toList.splitOn '/' with
    | [name] => ofSegments [] name
    | [ns, name] => ofSegments ns name
    | _ => .error (.tooManySegments text)
where
  ofSegments (ns name : List Char) : Except ParseError ResourceKey :=
    if name = [] then .error (.emptyName text)
    else .ok ⟨String.ofList ns, String.ofList name⟩

def encode (k : ResourceKey) : Json :=
  .object [("name", .string k.name), ("namespace", .string k.ns)]

def decode : Decoder ResourceKey :=
  let shape : Decoder.Shape := ⟨"ResourceKey", 2⟩
  Decoder.record shape
    (fun fields => do
      let name ← Decoder.optional fields "name" Decoder.string
      let ns ← Decoder.optional fields "namespace" Decoder.string
      let ns ← Decoder.required "namespace" ns
      let name ← Decoder.required "name" name
      return ⟨ns, name⟩)
    (fun js => do
      let ns ← Decoder.element shape 0 js Decoder.string
      let name ← Decoder.element shape 1 js Decoder.string
      return ⟨ns, name⟩)

end ResourceKey

/-! ## Kinds -/

/-- API group and kind name; `group` is empty for the core group. -/
structure GroupKind where
  group : String
  kind : String
deriving DecidableEq, Inhabited

namespace GroupKind

/-- What precedes the last separator; nothing if there is none. -/
def beforeLastSeparator (cs : List Char) : List Char :=
  (cs.reverse.dropWhile (· ≠ '/')).tail.reverse

/-- The kind with the group of an API version such as `group/version` or `version`. -/
def ofApiVersion (apiVersion kind : String) : GroupKind :=
  ⟨String.ofList (beforeLastSeparator apiVersion.toList), kind⟩

def render (g : GroupKind) : String :=
  if g.group = "" then g.kind else g.kind ++ "." ++ g.group

def encode (g : GroupKind) : Json :=
  .object [("group", .string g.group), ("kind", .string g.kind)]

def decode : Decoder GroupKind :=
  let shape : Decoder.Shape := ⟨"GroupKind", 2⟩
  Decoder.record shape
    (fun fields => do
      let group ← Decoder.optional fields "group" Decoder.string
      let kind ← Decoder.optional fields "kind" Decoder.string
      let group ← Decoder.required "group" group
      let kind ← Decoder.required "kind" kind
      return ⟨group, kind⟩)
    (fun js => do
      let group ← Decoder.element shape 0 js Decoder.string
      let kind ← Decoder.element shape 1 js Decoder.string
      return ⟨group, kind⟩)

end GroupKind

end StatusWatch

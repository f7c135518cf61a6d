import StatusWatch.Resource.ConditionSet

/-!
# Sources of resources

Where the observer gets the present state of a resource from.

- `FetchError`: why a fetch failed. That a resource does not exist is no error.
- `MemoryStore`: resources by key, with a queue of errors for the next fetches.
- `DocumentSource`: a store, backed by documents that are adapted on each fetch.
-/

namespace StatusWatch

/-! ## Errors -/

/-- Why a fetch failed. -/
inductive FetchError where
  /-- The source could not be reached. -/
  | unavailable (detail : String)
  /-- The caller gave up. -/
  | cancelled
  /-- What was fetched is no resource. -/
  | conversion (cause : ConditionError)
  | other (detail : String)

namespace FetchError

def message : FetchError → String
  | unavailable detail => "resource source unavailable: " ++ detail
  | cancelled => "fetch cancelled"
  | conversion cause => cause.message
  | other detail => detail

/-- Whether trying again may help. -/
def isRetryable : FetchError → Bool
  | conversion cause => cause.isRetryable
  | _ => true

end FetchError

/-- The outcome of a fetch: a resource, or nothing if it does not exist. -/
abbrev Fetched := Except FetchError (Option Resource)

/-! ## Stores in memory -/

/-- Resources by key. Queued errors are returned by the next fetches, the oldest first. -/
structure MemoryStore where
  objects : OrderedMap ResourceKey Resource
  failures : List FetchError

namespace MemoryStore

def empty : MemoryStore := ⟨∅, []⟩

def get? (s : MemoryStore) (key : ResourceKey) : Option Resource := s.objects.get? key

/-- Store a resource under its key; the previous one is returned. -/
def upsert (s : MemoryStore) (r : Resource) : MemoryStore × Option Resource :=
  ({ s with objects := s.objects.insert r.key r }, s.get? r.key)

def remove (s : MemoryStore) (key : ResourceKey) : MemoryStore × Option Resource :=
  ({ s with objects := s.objects.erase key }, s.get? key)

/-- Put a changed resource back under the key it was read from. -/
def replace (s : MemoryStore) (key : ResourceKey) (r : Resource) : MemoryStore :=
  { s with objects := s.objects.modify key fun _ => r }

/-- Make a later fetch fail. -/
def failNext (s : MemoryStore) (e : FetchError) : MemoryStore :=
  { s with failures := s.failures ++ [e] }

/-- Fetch a resource. -/
def fetch (s : MemoryStore) (key : ResourceKey) : MemoryStore × Fetched :=
  match s.failures with
  | e :: rest => ({ s with failures := rest }, .error e)
  | [] => (s, .ok (s.get? key))

end MemoryStore

/-! ## Stores backed by documents -/

/-- A store, with documents for the keys that it lacks. The documents are adapted with
one schema. -/
structure DocumentSource where
  store : MemoryStore
  documents : OrderedMap ResourceKey Json
  conditionTypes : ConditionTypes

namespace DocumentSource

/-- Fetch from the store first and adapt a document if the store has nothing. -/
def fetch (s : DocumentSource) (key : ResourceKey) : DocumentSource × Fetched :=
  let (store, fetched) := s.store.fetch key
  let fetched := match fetched with
    | .ok none =>
      match s.documents.get? key with
      | none => .ok none
      | some payload =>
        match Resource.ofDocument payload s.conditionTypes with
        | .ok r => .ok (some r)
        | .error cause => .error (.conversion (.adapt cause))
    | fetched => fetched
  ({ s with store }, fetched)

end DocumentSource

end StatusWatch

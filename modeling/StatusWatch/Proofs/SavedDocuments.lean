import StatusWatch.Proofs.ConditionSets
import StatusWatch.Proofs.WireFormats

/-!
# Saving adapted documents

A resource that was adapted from a document can always be saved, whatever was done to its
conditions: adapting has checked all that saving needs. The saved document differs from the
adapted one in the condition list alone, and it can be adapted again, which gives back all that
was known. So a resource may be saved and read again at any point of a run.

- `Json.at?`: what is at a path of field names; `Json.field?_setField`, `canonical_setField`.
- `Adaptable`, `parts_of_ofDocument`, `ofDocument_of_adaptable`: all that adapting checks.
- `withStatus`: what saving writes, and `at?_withStatus`, what it leaves alone.
- `perform_withOrigin`: an operation does not look at the document.
- `Edit`, `edits`: runs of operations and of overwritten lists.
- `Act`, `session`: the same with the document saved and read again in between;
  `session_adapted`: that makes no difference.
- `Saves`, `saved_after_edits`: the document that is saved after any run.
-/

namespace StatusWatch

/-! ## Places in documents -/

namespace Json

/-- What is found by following field names. -/
def at? : List String → Json → Option Json
  | [], j => some j
  | key :: path, j => (j.get? key).bind (at? path)

theorem field?_setField (key key' : String) (value : Json) (fields : Fields) :
    field? key' (setField key value fields) =
      if key = key' then some value else field? key' fields :=
  OrderedMap.find?_place key key' value fields

/-- Of two values for one field the second stays. -/
theorem setField_setField (key : String) (value value' : Json) : ∀ fields : Fields,
    setField key value' (setField key value fields) = setField key value' fields
  | [] => by simp [setField, OrderedMap.place]
  | (key', old) :: fields => by
    have ih := setField_setField key value value' fields
    simp only [setField] at ih ⊢
    rw [OrderedMap.place, OrderedMap.place]
    split
    · simp [OrderedMap.place]
    · split
      · simp [OrderedMap.place]
      · rename_i hlt hne
        rw [OrderedMap.place, if_neg hlt, if_neg hne, ih]

/-- Overwriting a field keeps the keys in order. -/
theorem canonical_setField {key : String} {value : Json} {fields : Fields}
    (hvalue : value.Canonical) (h : (object fields).Canonical) :
    (object (setField key value fields)).Canonical := by
  rw [Canonical, canonicalFields_iff] at h ⊢
  obtain ⟨hkeys, hfields⟩ := h
  constructor
  · exact List.pairwise_map.mpr
      (OrderedMap.place_increasing key value (List.pairwise_map.mp hkeys))
  · intro e he
    rcases OrderedMap.mem_place he with rfl | he
    · exact hvalue
    · exact hfields e he

theorem canonical_of_field? {key : String} {value : Json} : ∀ {fields : Fields},
    CanonicalFields fields → field? key fields = some value → value.Canonical
  | [], _, hfield => nomatch hfield
  | (key', value') :: fields, h, hfield => by
    rw [field?, OrderedMap.find?] at hfield
    split at hfield
    · cases hfield
      exact h.1
    · exact canonical_of_field? h.2 hfield

end Json

/-! ## What adapting checks -/

/-- Where the conditions of a document are. -/
def statusConditions : List String := ["status", "conditions"]

/-- The fields of a document have a status with the given fields, or none, or null. -/
def HasStatus (fields status : Json.Fields) : Prop :=
  Json.field? "status" fields = some (.object status) ∨
    ((Json.field? "status" fields = none ∨ Json.field? "status" fields = some .null) ∧ status = [])

/-- A document with the given fields names a kind, has readable metadata and may have a status. -/
structure Adaptable (fields : Json.Fields) (kind : String) (metadata : ObjectMeta)
    (status : Json.Fields) : Prop where
  kind_eq : Json.field? "kind" fields = some (.string kind)
  metadata_eq : ∃ raw, Json.field? "metadata" fields = some raw ∧
    ObjectMeta.decode raw = .ok metadata
  hasStatus : HasStatus fields status

/-- The fields with a list in the place of the conditions. -/
def withStatus (fields status : Json.Fields) (cs : List Condition) : Json.Fields :=
  Json.setField "status"
    (.object (Json.setField "conditions" (Condition.encodeAll cs) status)) fields

theorem exists_of_bind {ε α β : Type} {x : Except ε α} {f : α → Except ε β} {b : β}
    (h : (x >>= f) = .ok b) : ∃ a, x = .ok a ∧ f a = .ok b := by
  cases x with
  | error e => cases h
  | ok a => exact ⟨a, rfl, h⟩

theorem mapError_eq_ok {ε ε' α : Type} {x : Except ε α} {f : ε → ε'} {a : α} :
    x.mapError f = .ok a ↔ x = .ok a := by
  cases x <;> simp [Except.mapError]

section Documents

variable {fields status : Json.Fields} {kind : String} {metadata : ObjectMeta}

theorem field?_withStatus {cs : List Condition} {key : String} (h : key ≠ "status") :
    Json.field? key (withStatus fields status cs) = Json.field? key fields := by
  rw [withStatus, Json.field?_setField, if_neg h.symm]

theorem field?_withStatus_status (cs : List Condition) :
    Json.field? "status" (withStatus fields status cs) =
      some (.object (Json.setField "conditions" (Condition.encodeAll cs) status)) := by
  rw [withStatus, Json.field?_setField, if_pos rfl]

/-- Only the last list counts. -/
theorem withStatus_withStatus (cs ds : List Condition) :
    withStatus (withStatus fields status cs)
        (Json.setField "conditions" (Condition.encodeAll cs) status) ds =
      withStatus fields status ds := by
  rw [withStatus, withStatus, withStatus, Json.setField_setField, Json.setField_setField]

/-- A document can be adapted whatever its conditions have been replaced with. -/
theorem Adaptable.withStatus (h : Adaptable fields kind metadata status) (cs : List Condition) :
    Adaptable (withStatus fields status cs) kind metadata
      (Json.setField "conditions" (Condition.encodeAll cs) status) where
  kind_eq := by
    rw [field?_withStatus (by decide)]
    exact h.kind_eq
  metadata_eq := by
    rw [field?_withStatus (by decide)]
    exact h.metadata_eq
  hasStatus := Or.inl (field?_withStatus_status cs)

/-- Nothing changes beside the conditions. -/
theorem at?_withStatus (h : HasStatus fields status) (cs : List Condition) :
    ∀ {path : List String}, ¬ path <+: statusConditions → ¬ statusConditions <+: path →
      (Json.object (withStatus fields status cs)).at? path = (Json.object fields).at? path
  | [], habove, _ => absurd List.nil_prefix habove
  | key :: path, habove, hbelow => by
    rw [Json.at?, Json.at?, Json.get?, Json.get?]
    -- the only field that is written is the status, and in it the conditions
    by_cases hkey : key = "status"
    · subst hkey
      rw [field?_withStatus_status, Option.bind_some]
      cases path with
      | nil => exact absurd ⟨["conditions"], rfl⟩ habove
      | cons key path =>
        have hkey : key ≠ "conditions" := by
          rintro rfl
          exact hbelow ⟨path, rfl⟩
        rw [Json.at?, Json.get?, Json.field?_setField, if_neg hkey.symm]
        rcases h with hstatus | ⟨hstatus | hstatus, rfl⟩ <;> rw [hstatus] <;> rfl
    · rw [field?_withStatus hkey]

theorem at?_statusConditions (cs : List Condition) :
    (Json.object (withStatus fields status cs)).at? statusConditions =
      some (Condition.encodeAll cs) := by
  rw [statusConditions, Json.at?, Json.get?, field?_withStatus_status, Option.bind_some, Json.at?,
    Json.get?, Json.field?_setField, if_pos rfl]
  rfl

/-- A status that is missing or null is replaced with one that has nothing but conditions. -/
theorem at?_status (h : HasStatus fields status) (cs : List Condition)
    (habsent : (Json.object fields).at? ["status"] = none ∨
      (Json.object fields).at? ["status"] = some .null) :
    (Json.object (withStatus fields status cs)).at? ["status"] =
      some (.object [("conditions", Condition.encodeAll cs)]) := by
  have hempty : status = [] := by
    rcases h with hstatus | ⟨-, hempty⟩
    · rw [Json.at?, Json.get?, hstatus] at habsent
      rcases habsent with habsent | habsent <;> cases habsent
    · exact hempty
  rw [Json.at?, Json.get?, field?_withStatus_status, hempty]
  rfl

theorem canonical_withStatus (h : HasStatus fields status) (cs : List Condition)
    (hfields : (Json.object fields).Canonical) :
    (Json.object (withStatus fields status cs)).Canonical := by
  have hstatus : (Json.object status).Canonical := by
    rcases h with hstatus | ⟨-, rfl⟩
    · rw [Json.Canonical] at hfields
      exact Json.canonical_of_field? hfields.2 hstatus
    · rw [Json.Canonical, Json.CanonicalFields]
      exact ⟨List.Pairwise.nil, trivial⟩
  exact Json.canonical_setField
    (Json.canonical_setField (Condition.canonical_encodeAll cs) hstatus) hfields

end Documents

namespace Resource

/-- What is made of the parts of a document. -/
def adapted (fields : Json.Fields) (types : ConditionTypes) (kind : String)
    (metadata : ObjectMeta) (cs : List Condition) : Resource where
  metadata := metadata
  groupKind := GroupKind.ofApiVersion
    (match Json.field? "apiVersion" fields with
      | some (.string version) => version
      | _ => "")
    kind
  conditionTypes := types
  conditions := cs
  origin := .document (.object fields)
  lost := []

section Adapting

variable {fields status : Json.Fields} {kind : String} {metadata : ObjectMeta}
  {types : ConditionTypes} {r : Resource} {cs : List Condition}

theorem exists_kind_of_ofDocument (h : ofDocument (.object fields) types = .ok r) :
    ∃ kind, Json.field? "kind" fields = some (.string kind) := by
  rw [ofDocument] at h
  cases hkind : Json.field? "kind" fields with
  | none =>
    simp only [hkind] at h
    cases h
  | some j =>
    cases j with
    | string kind => exact ⟨kind, rfl⟩
    | _ =>
      simp only [hkind] at h
      cases h

theorem exists_metadata_of_ofDocument (h : ofDocument (.object fields) types = .ok r) :
    ∃ raw, Json.field? "metadata" fields = some raw := by
  obtain ⟨kind, hkind⟩ := exists_kind_of_ofDocument h
  rw [ofDocument] at h
  cases hraw : Json.field? "metadata" fields with
  | none =>
    simp only [hkind, hraw] at h
    cases h
  | some raw => exact ⟨raw, rfl⟩

/-- What adapting has found in a document that it accepts. -/
theorem parts_of_ofDocument {payload : Json} (h : ofDocument payload types = .ok r) :
    ∃ fields kind metadata status cs, payload = .object fields ∧
      Adaptable fields kind metadata status ∧ r = adapted fields types kind metadata cs := by
  cases payload with
  | object fields =>
    obtain ⟨kind, hkind⟩ := exists_kind_of_ofDocument h
    obtain ⟨raw, hraw⟩ := exists_metadata_of_ofDocument h
    rw [ofDocument] at h
    simp only [hkind, hraw, pure_bind] at h
    obtain ⟨metadata, hmetadata, h⟩ := exists_of_bind h
    -- kind and metadata are read alike whatever the status is
    have hadaptable : ∀ {status}, HasStatus fields status →
        Adaptable fields kind metadata status := fun hstatus =>
      ⟨hkind, ⟨raw, hraw, mapError_eq_ok.mp hmetadata⟩, hstatus⟩
    split at h
    · rename_i hstatus
      cases h
      exact ⟨fields, kind, metadata, [], [], rfl, hadaptable (Or.inr ⟨Or.inl hstatus, rfl⟩), rfl⟩
    · rename_i hstatus
      cases h
      exact ⟨fields, kind, metadata, [], [], rfl, hadaptable (Or.inr ⟨Or.inr hstatus, rfl⟩), rfl⟩
    · rename_i status hstatus
      obtain ⟨cs, -, h⟩ := exists_of_bind h
      cases h
      exact ⟨fields, kind, metadata, status, cs, rfl, hadaptable (Or.inl hstatus), rfl⟩
    · obtain ⟨_, hthrow, -⟩ := exists_of_bind h
      cases hthrow
  | _ => cases h

/-- A document is accepted if all that adapting looks for is there. -/
theorem ofDocument_of_adaptable (h : Adaptable fields kind metadata status)
    (hcs : readConditions (Json.field? "conditions" status) = .ok cs) :
    ofDocument (.object fields) types = .ok (adapted fields types kind metadata cs) := by
  obtain ⟨raw, hraw, hmetadata⟩ := h.metadata_eq
  have hmetadata := mapError_eq_ok (f := AdaptError.badMetadata) |>.mpr hmetadata
  rw [ofDocument]
  rcases h.hasStatus with hstatus | ⟨hstatus | hstatus, rfl⟩
  · simp only [h.kind_eq, hraw, hmetadata, hstatus, hcs]
    rfl
  · cases hcs
    simp only [h.kind_eq, hraw, hmetadata, hstatus]
    rfl
  · cases hcs
    simp only [h.kind_eq, hraw, hmetadata, hstatus]
    rfl

/-- The conditions can be written into a document that has been accepted. -/
theorem withConditions_of_hasStatus (h : HasStatus fields status) (cs : List Condition) :
    withConditions (.object fields) cs = .ok (.object (withStatus fields status cs)) := by
  rw [withConditions]
  rcases h with hstatus | ⟨hstatus | hstatus, rfl⟩ <;> simp only [hstatus] <;> rfl

theorem readConditions_encodeAll (cs : List Condition) :
    readConditions (some (Condition.encodeAll cs)) = .ok cs := by
  rw [Condition.encodeAll, readConditions, Condition.items_encode]
  rfl

/-- What was saved is read back with the list that it was saved with. -/
theorem ofDocument_withStatus (h : Adaptable fields kind metadata status) (cs : List Condition) :
    ofDocument (.object (withStatus fields status cs)) types =
      .ok { adapted fields types kind metadata cs with
            origin := .document (.object (withStatus fields status cs)) } := by
  have hread : readConditions (Json.field? "conditions"
      (Json.setField "conditions" (Condition.encodeAll cs) status)) = .ok cs := by
    rw [Json.field?_setField, if_pos rfl, readConditions_encodeAll]
  rw [ofDocument_of_adaptable (h.withStatus cs) hread, adapted, adapted,
    field?_withStatus (by decide)]

end Adapting

/-! ## Where resources came from -/

/-- The resource from another origin. -/
def withOrigin (r : Resource) (origin : Origin) : Resource := { r with origin }

theorem bind_withOrigin (now : Instant) (r : Resource) (origin : Origin) :
    (r.withOrigin origin).bind now = (r.bind now).withOrigin origin := by
  rw [bind, bind, apply_ite (withOrigin · origin)]
  rfl

theorem write?_withOrigin (now : Instant) (r : Resource) (origin : Origin) (c : Condition) :
    write? now (r.withOrigin origin) c = (write? now r c).map (withOrigin · origin) := by
  rw [write?, write?, Option.map_map]
  rfl

theorem recomputeRoot_withOrigin (clock : Readings) (r : Resource) (origin : Origin) :
    (r.withOrigin origin).recomputeRoot clock = (r.recomputeRoot clock).withOrigin origin := by
  rw [recomputeRoot, recomputeRoot, write?_withOrigin]
  show (Option.map _ (write? clock.root r (r.derivedRoot clock))).getD (r.withOrigin origin) = _
  cases write? clock.root r (r.derivedRoot clock) <;> rfl

theorem set_withOrigin (clock : Readings) (r : Resource) (origin : Origin) (c : Condition) :
    (r.withOrigin origin).set clock c =
      ((r.set clock c).1.withOrigin origin, (r.set clock c).2) := by
  rw [set, set, write?_withOrigin]
  cases write? clock.now r c with
  | none => rfl
  | some r' =>
    simp only [Option.map_some, recomputeRoot_withOrigin]
    rw [apply_ite (withOrigin · origin)]
    rfl

theorem clear_withOrigin (r : Resource) (origin : Origin) (type : String) :
    (r.withOrigin origin).clear type =
      (r.clear type).map fun p => (p.1.withOrigin origin, p.2) := by
  rw [clear, clear, apply_ite (Except.map _)]
  simp only [apply_ite (Except.map _)]
  rfl

end Resource

/-! ## Runs -/

namespace ConditionSet

open Resource (Wrote withOrigin)

/-- Where a resource came from does not matter to an operation. -/
theorem perform_withOrigin (clock : Readings) (r : Resource) (origin : Origin) (op : Operation) :
    op.perform clock (r.withOrigin origin) =
      ((op.perform clock r).1.withOrigin origin, (op.perform clock r).2) := by
  cases op with
  | bind => rw [Operation.perform, Resource.bind_withOrigin, Operation.perform]
  | set c => rw [Operation.perform, Resource.set_withOrigin, Operation.perform]
  | clear type =>
    rw [Operation.perform, Operation.perform, Resource.clear_withOrigin]
    cases r.clear type <;> rfl

/-- A change to the conditions of a resource. -/
inductive Edit where
  /-- An operation with the given clock readings. -/
  | operate (clock : Readings) (op : Operation)
  /-- The list is overwritten. -/
  | overwrite (conditions : List Condition)

def Edit.perform (r : Resource) : Edit → Resource × Answer
  | .operate clock op => op.perform clock r
  | .overwrite conditions => (r.setConditions conditions, .done)

/-- Make the changes in order and collect the answers. -/
def edits (r : Resource) : List Edit → Resource × List Answer
  | [] => (r, [])
  | e :: es =>
    let (r, answer) := e.perform r
    let (r, answers) := edits r es
    (r, answer :: answers)

theorem edits_cons (r : Resource) (e : Edit) (es : List Edit) :
    edits r (e :: es) =
      let next := e.perform r
      let rest := edits next.1 es
      (rest.1, next.2 :: rest.2) := rfl

theorem wrote_edit (r : Resource) (e : Edit) : Wrote r (e.perform r).1 := by
  cases e with
  | operate clock op => exact wrote_perform clock r op
  | overwrite conditions => exact Resource.wrote_setConditions r conditions

theorem wrote_edits (es : List Edit) : ∀ r : Resource, Wrote r (edits r es).1 := by
  induction es with
  | nil => exact Wrote.refl
  | cons e es ih => exact fun r => (wrote_edit r e).trans (ih _)

theorem edit_withOrigin (r : Resource) (origin : Origin) (e : Edit) :
    e.perform (r.withOrigin origin) =
      ((e.perform r).1.withOrigin origin, (e.perform r).2) := by
  cases e with
  | operate clock op => exact perform_withOrigin clock r origin op
  | overwrite conditions => rfl

/-! ## Runs with the document saved in between -/

/-- Save a resource and adapt what was saved. -/
def reload (r : Resource) : Except AdaptError Resource := do
  Resource.ofDocument (← r.toDocument) r.conditionTypes

/-- The conditions are changed, or the resource is saved and read again. -/
inductive Act where
  | edit (e : Edit)
  | reload

/-- The changes among the acts. -/
def changesOf : List Act → List Edit
  | [] => []
  | .edit e :: acts => e :: changesOf acts
  | .reload :: acts => changesOf acts

/-- Perform the acts in order and collect the answers. -/
def session (r : Resource) : List Act → Except AdaptError (Resource × List Answer)
  | [] => .ok (r, [])
  | .edit e :: acts => do
    let (r, answer) := e.perform r
    let (r, answers) ← session r acts
    return (r, answer :: answers)
  | .reload :: acts => do session (← reload r) acts

section Sessions

variable {fields status : Json.Fields} {kind : String} {metadata : ObjectMeta}
  {types : ConditionTypes}

/-- The document itself, or one that was saved from it. -/
def SavedFrom (fields status : Json.Fields) (payload : Json) : Prop :=
  payload = .object fields ∨ ∃ cs, payload = .object (withStatus fields status cs)

/-- It makes no difference from which of the saved documents a resource is saved. -/
theorem withConditions_of_savedFrom (h : HasStatus fields status) {payload : Json}
    (hfrom : SavedFrom fields status payload) (cs : List Condition) :
    Resource.withConditions payload cs = .ok (.object (withStatus fields status cs)) := by
  rcases hfrom with rfl | ⟨ds, rfl⟩
  · exact Resource.withConditions_of_hasStatus h cs
  · rw [Resource.withConditions_of_hasStatus (Or.inl (field?_withStatus_status ds)) cs,
      withStatus_withStatus]

theorem reload_adapted (h : Adaptable fields kind metadata status) {payload : Json}
    (hfrom : SavedFrom fields status payload) (cs : List Condition) :
    reload ((Resource.adapted fields types kind metadata cs).withOrigin (.document payload)) =
      .ok ((Resource.adapted fields types kind metadata cs).withOrigin
        (.document (.object (withStatus fields status cs)))) := by
  have hsaved : ((Resource.adapted fields types kind metadata cs).withOrigin
      (.document payload)).toDocument = .ok (.object (withStatus fields status cs)) :=
    withConditions_of_savedFrom h.hasStatus hfrom cs
  rw [reload, hsaved]
  exact Resource.ofDocument_withStatus h cs

/-- Saving and reading again changes nothing but the document that is held. -/
theorem session_adapted (h : Adaptable fields kind metadata status) (acts : List Act) :
    ∀ (cs : List Condition) (payload : Json), SavedFrom fields status payload →
      let u := Resource.adapted fields types kind metadata cs
      ∃ payload', SavedFrom fields status payload' ∧
        session (u.withOrigin (.document payload)) acts =
          .ok ((edits u (changesOf acts)).1.withOrigin (.document payload'),
            (edits u (changesOf acts)).2) := by
  -- over the conditions and the document reached so far, which every reload replaces
  induction acts with
  | nil => exact fun cs payload hfrom => ⟨payload, hfrom, rfl⟩
  | cons act acts ih =>
    intro cs payload hfrom u
    cases act with
    | edit e =>
      obtain ⟨cs', hnext⟩ := wrote_edit u e
      have hnext : (e.perform u).1 = Resource.adapted fields types kind metadata cs' := hnext
      obtain ⟨payload', hfrom', heq⟩ := ih cs' payload hfrom
      refine ⟨payload', hfrom', ?_⟩
      simp only [session, edit_withOrigin, changesOf, edits_cons, hnext, heq]
      rfl
    | reload =>
      -- the saved document is read back as the same resource
      obtain ⟨payload', hfrom', heq⟩ := ih cs _ (Or.inr ⟨cs, rfl⟩)
      refine ⟨payload', hfrom', ?_⟩
      rw [session, reload_adapted h hfrom]
      exact heq

end Sessions

/-- What is saved after changes to a resource that was adapted from a document. -/
structure Saves (payload : Json) (types : ConditionTypes) (r : Resource) (es : List Edit)
    (saved : Json) : Prop where
  toDocument : (edits r es).1.toDocument = .ok saved
  /-- The document is kept as it was adapted. -/
  origin : (edits r es).1.origin = .document payload
  /-- Whatever is not above or below the conditions is the same in both documents. -/
  elsewhere : ∀ path : List String, ¬ path <+: statusConditions → ¬ statusConditions <+: path →
    saved.at? path = payload.at? path
  conditions : saved.at? statusConditions =
    some (Condition.encodeAll (edits r es).1.conditions)
  /-- A status is made where there was none. -/
  status : payload.at? ["status"] = none ∨ payload.at? ["status"] = some .null →
    saved.at? ["status"] =
      some (.object [("conditions", Condition.encodeAll (edits r es).1.conditions)])
  canonical : payload.Canonical → saved.Canonical
  /-- The saved document is adapted to the same resource. -/
  adapts : Resource.ofDocument saved types =
    .ok { (edits r es).1 with origin := .document saved }
  /-- The changes come to the same if the resource is saved and read again in between. -/
  sessions : ∀ acts, changesOf acts = es →
    ∃ v, session r acts = .ok (v, (edits r es).2) ∧
      v.toStatusObject = (edits r es).1.toStatusObject ∧ v.toDocument = .ok saved

/-- After any changes, a resource that was adapted from a document can be saved: the conditions
are written to their place, nothing else changes, and no reader can tell whether it was saved
and read again meanwhile. -/
theorem saved_after_edits {payload : Json} {types : ConditionTypes} {r : Resource}
    (h : Resource.ofDocument payload types = .ok r) (es : List Edit) :
    ∃ saved, Saves payload types r es saved := by
  obtain ⟨fields, kind, metadata, status, cs, rfl, hadaptable, rfl⟩ :=
    Resource.parts_of_ofDocument h
  obtain ⟨cs', hedits⟩ := wrote_edits es (Resource.adapted fields types kind metadata cs)
  have hedits : (edits (Resource.adapted fields types kind metadata cs) es).1 =
    Resource.adapted fields types kind metadata cs' := hedits
  have hstatus := hadaptable.hasStatus
  refine ⟨.object (withStatus fields status cs'), ?_, ?_, fun path => at?_withStatus hstatus cs',
    ?_, fun habsent => ?_, canonical_withStatus hstatus cs', ?_, ?_⟩
  · rw [hedits]
    exact Resource.withConditions_of_hasStatus hstatus cs'
  · rw [hedits]
    rfl
  · rw [hedits]
    exact at?_statusConditions cs'
  · rw [hedits]
    exact at?_status hstatus cs' habsent
  · rw [hedits]
    exact Resource.ofDocument_withStatus hadaptable cs'
  · rintro acts rfl
    obtain ⟨payload', hfrom, heq⟩ :=
      session_adapted hadaptable acts cs (.object fields) (Or.inl rfl)
    refine ⟨_, heq, rfl, ?_⟩
    rw [hedits]
    exact withConditions_of_savedFrom hstatus hfrom cs'

/-- A document whose status is null. -/
def unreported : Json :=
  .object
    [("apiVersion", .string "apps/v1"), ("kind", .string "Deployment"),
      ("metadata", .object [("name", .string "n")]), ("spec", .object [("replicas", .int 2)]),
      ("status", .null)]

/-- What it is adapted to. -/
def newcomer : Resource where
  metadata := ObjectMeta.of .epoch "" "n"
  groupKind := ⟨"apps", "Deployment"⟩
  conditionTypes := .of "Ready" ["Live"]
  conditions := []
  origin := .document unreported
  lost := []

/-- The first conditions of a document are written, once with the document saved in between. -/
theorem saved_unreported :
    Resource.ofDocument unreported (.of "Ready" ["Live"]) = .ok newcomer ∧
      ∃ saved, Saves unreported (.of "Ready" ["Live"]) newcomer
        [.operate Instant.epoch .bind, .operate Instant.epoch (.set (.of .epoch "Live" .true))]
        saved := by
  have hadapted : Resource.ofDocument unreported (.of "Ready" ["Live"]) = .ok newcomer :=
    Resource.ofDocument_of_adaptable
      ⟨rfl, ⟨_, rfl, rfl⟩, Or.inr ⟨Or.inr rfl, rfl⟩⟩ rfl
  exact ⟨hadapted, saved_after_edits hadapted _⟩

end ConditionSet

end StatusWatch

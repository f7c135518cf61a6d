import StatusWatch.Event.Basic
import StatusWatch.Proofs.LabelSets
import StatusWatch.Proofs.WrittenTimes
import StatusWatch.Proofs.WrittenUuids
import StatusWatch.Resource.Basic
import StatusWatch.Settings.Basic

/-!
# Round trips

What is written for a value is read back as that value, for every type that has a wire format.
The two directions are separate definitions, and they treat fields differently: a field that is
left out because it has its default value has to be filled in with that value.

- `Decoder.int64_toInt`, `Decoder.uint64_toNat`, `Decoder.instant_render`, `Decoder.uuid_render`:
  plain values.
- `Decoder.items_map`, `Decoder.entries_map`: lists and maps, item by item.
- `Decoder.exists_optional`: a field that may be left out.
- `decode_encode`: for each type, what is written is read back.
- `canonical_encode`: for each type, objects are written with their keys in order.
- `RoundTrips`, `wire_formats`: all formats together.
-/

namespace StatusWatch

/-! ## Reading what was written -/

namespace Decoder

theorem int64_toInt (n : Int64) : int64 (.int n.toInt) = .ok n := by
  have hlow := Int64.le_toInt n
  have hhigh := Int64.toInt_lt n
  have hrange : -0x8000000000000000 ≤ n.toInt ∧ n.toInt < 0x8000000000000000 := by omega
  rw [int64, if_pos hrange, Int64.ofInt_toInt]

theorem uint64_toNat (expected : String) (n : UInt64) :
    uint64 expected (.int n.toNat) = .ok n := by
  have hrange : 0 ≤ (n.toNat : Int) ∧ (n.toNat : Int).toNat < UInt64.size :=
    ⟨Int.natCast_nonneg _, n.toNat_lt⟩
  rw [uint64, if_pos hrange, Int.toNat_natCast, UInt64.ofNat_toNat]

theorem instant_render (t : Instant) : instant (.string t.render) = .ok t := by
  rw [instant, Instant.parse_render]

theorem uuid_render (u : Uuid) : uuid (.string u.render) = .ok u := by
  rw [uuid, Uuid.parse_render]

theorem nullable_string {α : Type} {d : Decoder α} {s : String} {a : α}
    (h : d (.string s) = .ok a) : nullable d (.string s) = .ok (some a) :=
  congrArg (Except.map some) h

theorem items_map {α : Type} {d : Decoder α} {e : α → Json} (h : ∀ a, d (e a) = .ok a)
    (as : List α) : items d (as.map e) = .ok as := by
  induction as with
  | nil => rfl
  | cons a as ih =>
    rw [List.map_cons, items, h, ih]
    rfl

theorem entries_map {α : Type} {d : Decoder α} {e : α → Json} (h : ∀ a, d (e a) = .ok a)
    (es : List (String × α)) : entries d (es.map fun p => (p.1, e p.2)) = .ok es := by
  induction es with
  | nil => rfl
  | cons p es ih =>
    rw [List.map_cons, entries, h, ih]
    rfl

/-- A field that is read back is read back as an optional field. -/
theorem optional_of_field {α : Type} {fields : Json.Fields} {key : String} {d : Decoder α}
    {value : Json} {a : α} (hfield : Json.field? key fields = some value) (h : d value = .ok a) :
    optional fields key d = .ok (some a) := by
  unfold optional
  rw [hfield]
  simp only [h, Except.map]

theorem optional_of_absent {α : Type} {fields : Json.Fields} {key : String} {d : Decoder α}
    (hfield : Json.field? key fields = none) : optional fields key d = .ok none := by
  unfold optional
  rw [hfield]

/-- A field with a default is read back if it is only left out for the default. -/
theorem exists_optional {α : Type} {fields : Json.Fields} {key : String} {d : Decoder α}
    {a default : α} (hread : ∀ value, Json.field? key fields = some value → d value = .ok a)
    (habsent : Json.field? key fields = none → a = default) :
    ∃ a?, optional fields key d = .ok a? ∧ a?.getD default = a := by
  cases hfield : Json.field? key fields with
  | none => exact ⟨none, optional_of_absent hfield, (habsent hfield).symm⟩
  | some value => exact ⟨some a, optional_of_field hfield (hread value hfield), rfl⟩

end Decoder

theorem Decoder.list_string (ss : List String) :
    list string (.array (ss.map .string)) = .ok ss :=
  @items_map String string .string (fun _ => rfl) ss

open Decoder (optional_of_field optional_of_absent)

/-! ## Conditions and schemas -/

theorem ConditionStatus.decode_encode (s : ConditionStatus) : decode s.encode = .ok s := by
  cases s <;> rfl

theorem ConditionSeverity.decode_encode (s : ConditionSeverity) : decode s.encode = .ok s := by
  cases s <;> rfl

namespace Condition

/-- The fields of a condition that are written, and what is read back from each. -/
theorem decodeFields_eq {fields : Json.Fields} (c : Condition)
    (htime : Json.field? "lastTransitionTime" fields = some (.string c.lastTransition.render))
    (hmessage : Json.field? "message" fields = some (.string c.message))
    (hgeneration :
      Json.field? "observedGeneration" fields = some (.int c.observedGeneration.toInt))
    (hreason : Json.field? "reason" fields = some (.string c.reason))
    (hseverity : Json.field? "severity" fields = some c.severity.encode ∨
      (Json.field? "severity" fields = none ∧ c.severity = .error))
    (hstatus : Json.field? "status" fields = some c.status.encode)
    (htype : Json.field? "type" fields = some (.string c.type)) :
    decodeFields fields = .ok c := by
  -- the severity is not written if it is the one that is read when there is none
  obtain ⟨severity, hread, hdefault⟩ : ∃ severity,
      Decoder.optional fields "severity" ConditionSeverity.decode = .ok severity ∧
        severity.getD .error = c.severity := by
    rcases hseverity with hwritten | ⟨habsent, herror⟩
    · exact ⟨_, optional_of_field hwritten c.severity.decode_encode, rfl⟩
    · exact ⟨_, optional_of_absent habsent, herror.symm⟩
  have hstring : ∀ s, Decoder.string (.string s) = .ok s := fun _ => rfl
  unfold decodeFields
  simp only [optional_of_field htime (Decoder.instant_render _),
    optional_of_field hmessage (hstring _), optional_of_field hreason (hstring _),
    optional_of_field hgeneration (Decoder.int64_toInt _), hread, hdefault,
    optional_of_field hstatus c.status.decode_encode, optional_of_field htype (hstring _),
    bind, Except.bind, Decoder.required, Option.getD_some, pure, Except.pure]

theorem decode_encode (c : Condition) : decode c.encode = .ok c := by
  unfold encode
  split
  · rename_i herror
    have herror : c.severity = .error := by simpa [ConditionSeverity.isError] using herror
    exact decodeFields_eq c rfl rfl rfl rfl (Or.inr ⟨rfl, herror⟩) rfl rfl
  · exact decodeFields_eq c rfl rfl rfl rfl (Or.inl rfl) rfl rfl

theorem items_encode (cs : List Condition) :
    Decoder.items decode (cs.map encode) = .ok cs := Decoder.items_map decode_encode cs

end Condition

theorem ConditionTypes.decode_encode (t : ConditionTypes) : decode t.encode = .ok t := by
  unfold decode encode Decoder.record
  simp only [Decoder.optional, Json.field?, OrderedMap.find?, Decoder.list_string, if_true,
    Decoder.string, Except.map, Decoder.required, bind, Except.bind, String.reduceEq, if_false]
  rfl

/-! ## Names and metadata -/

theorem GroupKind.decode_encode (g : GroupKind) : decode g.encode = .ok g := rfl

theorem ResourceKey.decode_encode (k : ResourceKey) : decode k.encode = .ok k := rfl

theorem OrderedMap.isEmpty_iff {α : Type} {m : OrderedMap String α} :
    m.isEmpty = true ↔ m = ∅ := by
  obtain ⟨entries, hincreasing⟩ := m
  rw [isEmpty, List.isEmpty_iff]
  exact ⟨fun h => by subst h; rfl, fun h => congrArg OrderedMap.entries h⟩

theorem OrderedMap.ofList_entries {α : Type} (m : OrderedMap String α) : ofList m.entries = m := by
  refine ext_get? fun k => ?_
  have hkeys : (m.entries.map (·.1)).Nodup := by
    refine List.pairwise_map.mpr (m.increasing.imp fun {a b} hlt heq => ?_)
    rw [heq] at hlt
    exact StrictOrder.irrefl b.1 hlt
  exact get?_ofList k hkeys

theorem Labels.decode_encode (labels : Labels) :
    Decoder.map Decoder.string labels.encode = .ok labels := by
  have hentries := @Decoder.entries_map String Decoder.string .string (fun _ => rfl) labels.entries
  rw [encode, Decoder.map, hentries]
  exact congrArg Except.ok labels.ofList_entries

namespace ObjectMeta

/-- The fields of metadata that are written, and what is read back from each. -/
theorem decodeFields_eq {fields : Json.Fields} (m : ObjectMeta)
    (hcreated : Json.field? "creationTimestamp" fields = some (.string m.created.render))
    (hdeleted : Json.field? "deletionTimestamp" fields =
      m.deleted.map fun t => .string t.render)
    (hfinalizers : Json.field? "finalizers" fields =
      if m.finalizers = [] then none else some (.array (m.finalizers.map .string)))
    (hgeneration : Json.field? "generation" fields = some (.int m.generation.toInt))
    (hlabels : Json.field? "labels" fields =
      if m.labels.isEmpty then none else some m.labels.encode)
    (hname : Json.field? "name" fields = some (.string m.name))
    (hns : Json.field? "namespace" fields = some (.string m.ns))
    (huid : Json.field? "uid" fields = some (.string m.uid)) :
    decodeFields fields = .ok m := by
  have hstring : ∀ s, Decoder.string (.string s) = .ok s := fun _ => rfl
  -- each field that may be absent has a default, and is absent exactly when it has that value
  obtain ⟨deleted, hdeleted, hdeleted'⟩ : ∃ a?, Decoder.optional fields "deletionTimestamp"
      (Decoder.nullable Decoder.instant) = .ok a? ∧ a?.getD none = m.deleted := by
    refine Decoder.exists_optional (fun value hvalue => ?_) fun habsent => ?_
    · obtain ⟨t, ht, rfl⟩ := Option.map_eq_some_iff.mp (hdeleted.symm.trans hvalue)
      rw [ht]
      exact Decoder.nullable_string (Decoder.instant_render t)
    · exact Option.map_eq_none_iff.mp (hdeleted.symm.trans habsent)
  obtain ⟨finalizers, hfinalizers, hfinalizers'⟩ : ∃ a?, Decoder.optional fields "finalizers"
      (Decoder.list Decoder.string) = .ok a? ∧ a?.getD [] = m.finalizers := by
    refine Decoder.exists_optional (fun value hvalue => ?_) fun habsent => ?_
    · rw [hfinalizers, Option.ite_none_left_eq_some] at hvalue
      rw [← Option.some.inj hvalue.2]
      exact Decoder.list_string _
    · simpa using hfinalizers.symm.trans habsent
  obtain ⟨labels, hlabels, hlabels'⟩ : ∃ a?, Decoder.optional fields "labels"
      (Decoder.map Decoder.string) = .ok a? ∧ a?.getD ∅ = m.labels := by
    refine Decoder.exists_optional (fun value hvalue => ?_) fun habsent => ?_
    · rw [hlabels, Option.ite_none_left_eq_some] at hvalue
      rw [← Option.some.inj hvalue.2]
      exact Labels.decode_encode _
    · exact OrderedMap.isEmpty_iff.mp (by simpa using hlabels.symm.trans habsent)
  unfold decodeFields
  simp only [optional_of_field hcreated (Decoder.instant_render _), hdeleted, hdeleted',
    hfinalizers, hfinalizers', optional_of_field hgeneration (Decoder.int64_toInt _), hlabels,
    hlabels', optional_of_field hname (hstring _), optional_of_field hns (hstring _),
    optional_of_field huid (hstring _), bind, Except.bind, Decoder.required, Option.getD_some,
    pure, Except.pure]

theorem decode_encode (m : ObjectMeta) : decode m.encode = .ok m := by
  unfold encode
  -- three fields are left out, or they are not
  refine decodeFields_eq m ?_ ?_ ?_ ?_ ?_ ?_ ?_ ?_ <;>
    cases m.deleted <;> by_cases hfinalizers : m.finalizers = [] <;>
      by_cases hlabels : m.labels.isEmpty = true <;>
        simp only [hfinalizers, hlabels, if_true, if_false] <;> rfl

end ObjectMeta

/-! ## Objects, events and settings -/

theorem StatusObject.decode_encode (o : StatusObject) : decode o.encode = .ok o := by
  have hconditions : Decoder.list Condition.decode (Condition.encodeAll o.conditions) =
      .ok o.conditions := Condition.items_encode o.conditions
  show decodeFields _ = _
  rw [decodeFields, optional_of_field rfl (ConditionTypes.decode_encode _),
    optional_of_field rfl hconditions, optional_of_field rfl (GroupKind.decode_encode _),
    optional_of_field rfl (ObjectMeta.decode_encode _)]
  rfl

theorem EventType.decode_encode (t : EventType) : decode t.encode = .ok t := by
  cases t <;> rfl

theorem ObjectReference.decode_encode (r : ObjectReference) : decode r.encode = .ok r := rfl

theorem EventRecord.decode_encode (r : EventRecord) : decode r.encode = .ok r := by
  show decodeFields _ = _
  rw [decodeFields, optional_of_field rfl (Decoder.list_string _),
    optional_of_field rfl (EventType.decode_encode _),
    optional_of_field rfl (Decoder.uuid_render _),
    optional_of_field rfl (ObjectReference.decode_encode _),
    optional_of_field rfl (Decoder.instant_render _)]
  rfl

theorem MetricsSettings.decode_encode (s : MetricsSettings) : decode s.encode = .ok s := by
  unfold decode encode Decoder.record
  simp only
  rw [optional_of_field rfl (Decoder.list_string _)]
  rfl

theorem LoggingSettings.decode_encode (s : LoggingSettings) : decode s.encode = .ok s := rfl

theorem ObserverSettings.decode_encode (s : ObserverSettings) : decode s.encode = .ok s := by
  unfold decode encode Decoder.record
  simp only
  rw [optional_of_field rfl (LoggingSettings.decode_encode _),
    optional_of_field rfl (Decoder.uint64_toNat _ _),
    optional_of_field rfl (MetricsSettings.decode_encode _),
    optional_of_field rfl (Decoder.uint64_toNat _ _)]
  rfl

/-! ## Keys in order -/

namespace Json

theorem canonicalFields_iff {fields : Fields} :
    CanonicalFields fields ↔ ∀ e ∈ fields, e.2.Canonical := by
  induction fields with
  | nil => simp [CanonicalFields]
  | cons e fields ih => simp [CanonicalFields, ih]

theorem canonicalItems_iff {items : List Json} :
    CanonicalItems items ↔ ∀ item ∈ items, item.Canonical := by
  induction items with
  | nil => simp [CanonicalItems]
  | cons item items ih => simp [CanonicalItems, ih]

theorem canonical_object {fields : Fields} (hkeys : (fields.map (·.1)).Pairwise (· < ·))
    (hvalues : ∀ e ∈ fields, e.2.Canonical) : (object fields).Canonical := by
  rw [Canonical, canonicalFields_iff]
  exact ⟨hkeys, hvalues⟩

theorem canonicalItems_map {α : Type} {e : α → Json} (h : ∀ a, (e a).Canonical) (as : List α) :
    CanonicalItems (as.map e) :=
  canonicalItems_iff.mpr (List.forall_mem_map.mpr fun a _ => h a)

theorem canonicalItems_strings (ss : List String) : CanonicalItems (ss.map .string) :=
  @canonicalItems_map String .string (fun _ => trivial) ss

/-- Fields that are left out do not change the order of the others. -/
theorem canonical_of_sublist {fields all : Fields} (hsub : fields.Sublist all)
    (h : (object all).Canonical) : (object fields).Canonical := by
  rw [Canonical, canonicalFields_iff] at h ⊢
  exact ⟨h.1.sublist (hsub.map _), fun e he => h.2 e (hsub.mem he)⟩

end Json

open Json (canonicalItems_map canonicalItems_strings canonical_object)

theorem Labels.canonical_encode (labels : Labels) : labels.encode.Canonical := by
  rw [encode, Json.Canonical, Json.canonicalFields_iff]
  refine ⟨List.pairwise_map.mpr (List.pairwise_map.mpr labels.increasing), fun e he => ?_⟩
  obtain ⟨e', -, rfl⟩ := List.mem_map.mp he
  exact trivial

theorem ConditionTypes.canonical_encode (t : ConditionTypes) : t.encode.Canonical := by
  refine canonical_object ?_ ?_
  · show ["dependents", "root"].Pairwise (· < ·)
    decide
  · simp [canonicalItems_strings, Json.Canonical]

theorem GroupKind.canonical_encode (g : GroupKind) : g.encode.Canonical := by
  refine canonical_object ?_ ?_
  · show ["group", "kind"].Pairwise (· < ·)
    decide
  · simp [Json.Canonical]

theorem ResourceKey.canonical_encode (k : ResourceKey) : k.encode.Canonical := by
  refine canonical_object ?_ ?_
  · show ["name", "namespace"].Pairwise (· < ·)
    decide
  · simp [Json.Canonical]

theorem ObjectReference.canonical_encode (r : ObjectReference) : r.encode.Canonical := by
  refine canonical_object ?_ ?_
  · show ["group_kind", "key", "uid"].Pairwise (· < ·)
    decide
  · simp [GroupKind.canonical_encode, ResourceKey.canonical_encode, Json.Canonical]

theorem Condition.canonical_encode (c : Condition) : c.encode.Canonical := by
  -- with no field left out, the names are in order; what is written is a part of that
  have hall : (Json.object ([("lastTransitionTime", Json.string c.lastTransition.render),
      ("message", Json.string c.message),
      ("observedGeneration", Json.int c.observedGeneration.toInt),
      ("reason", Json.string c.reason)] ++ [("severity", c.severity.encode)] ++
      [("status", c.status.encode), ("type", Json.string c.type)])).Canonical := by
    refine canonical_object ?_ ?_
    · show ["lastTransitionTime", "message", "observedGeneration", "reason", "severity", "status",
        "type"].Pairwise (· < ·)
      decide
    · simp [ConditionSeverity.encode, ConditionStatus.encode, Json.Canonical]
  refine Json.canonical_of_sublist ?_ hall
  refine List.Sublist.append (List.Sublist.append (.refl _) ?_) (.refl _)
  split
  · exact List.nil_sublist _
  · exact List.Sublist.refl _

theorem ObjectMeta.canonical_encode (m : ObjectMeta) : m.encode.Canonical := by
  -- as for a condition: three of the fields may be left out
  have hall : (Json.object ([("creationTimestamp", Json.string m.created.render)] ++
      [("deletionTimestamp", Json.string (m.deleted.getD .epoch).render)] ++
      [("finalizers", Json.array (m.finalizers.map Json.string))] ++
      [("generation", Json.int m.generation.toInt)] ++ [("labels", m.labels.encode)] ++
      [("name", Json.string m.name), ("namespace", Json.string m.ns),
        ("uid", Json.string m.uid)])).Canonical := by
    refine canonical_object ?_ ?_
    · show ["creationTimestamp", "deletionTimestamp", "finalizers", "generation", "labels", "name",
        "namespace", "uid"].Pairwise (· < ·)
      decide
    · simp [canonicalItems_strings, Labels.canonical_encode, Json.Canonical]
  refine Json.canonical_of_sublist ?_ hall
  refine List.Sublist.append (List.Sublist.append (List.Sublist.append (List.Sublist.append
    (List.Sublist.append (.refl _) ?_) ?_) (.refl _)) ?_) (.refl _)
  · cases m.deleted
    · exact List.nil_sublist _
    · exact List.Sublist.refl _
  · split
    · exact List.nil_sublist _
    · exact List.Sublist.refl _
  · split
    · exact List.nil_sublist _
    · exact List.Sublist.refl _

/-- Conditions are written with their keys in order. -/
theorem Condition.canonical_encodeAll (cs : List Condition) : (encodeAll cs).Canonical :=
  canonicalItems_map canonical_encode cs

theorem StatusObject.canonical_encode (o : StatusObject) : o.encode.Canonical := by
  refine canonical_object ?_ ?_
  · show ["conditionTypes", "conditions", "groupKind", "metadata"].Pairwise (· < ·)
    decide
  · simp [ConditionTypes.canonical_encode, Condition.canonical_encodeAll,
      GroupKind.canonical_encode, ObjectMeta.canonical_encode]

theorem EventRecord.canonical_encode (r : EventRecord) : r.encode.Canonical := by
  refine canonical_object ?_ ?_
  · show ["dedupe_values", "event_type", "id", "involved", "message", "reason",
      "timestamp"].Pairwise (· < ·)
    decide
  · simp [canonicalItems_strings, EventType.encode, ObjectReference.canonical_encode,
      Json.Canonical]

theorem MetricsSettings.canonical_encode (s : MetricsSettings) : s.encode.Canonical := by
  refine canonical_object ?_ ?_
  · show ["label_projection", "legacy_metrics", "namespace"].Pairwise (· < ·)
    decide
  · simp [canonicalItems_strings, Json.Canonical]

theorem LoggingSettings.canonical_encode (s : LoggingSettings) : s.encode.Canonical := by
  refine canonical_object ?_ ?_
  · show ["json", "level"].Pairwise (· < ·)
    decide
  · simp [Json.Canonical]

theorem ObserverSettings.canonical_encode (s : ObserverSettings) : s.encode.Canonical := by
  refine canonical_object ?_ ?_
  · show ["logging", "max_concurrent_reconciles", "metrics",
      "requeue_interval_secs"].Pairwise (· < ·)
    decide
  · simp [LoggingSettings.canonical_encode, MetricsSettings.canonical_encode, Json.Canonical]

/-! ## All formats -/

/-- A format in which nothing is lost. -/
structure RoundTrips {α : Type} (encode : α → Json) (decode : Decoder α) : Prop where
  /-- What is written is a document. -/
  canonical : ∀ a, (encode a).Canonical
  /-- Every value is read back. -/
  decode_encode : ∀ a, decode (encode a) = .ok a
  /-- Whatever document a value was read from, the one that is written for it will do as well. -/
  recode : ∀ payload a, decode payload = .ok a → decode (encode a) = .ok a

theorem RoundTrips.of_decode_encode {α : Type} {encode : α → Json} {decode : Decoder α}
    (hcanonical : ∀ a, (encode a).Canonical) (hdecode : ∀ a, decode (encode a) = .ok a) :
    RoundTrips encode decode where
  canonical := hcanonical
  decode_encode := hdecode
  recode _ a _ := hdecode a

/-- The formats of everything that is stored or sent. -/
structure WireFormats : Prop where
  condition : RoundTrips Condition.encode Condition.decode
  schema : RoundTrips ConditionTypes.encode ConditionTypes.decode
  metadata : RoundTrips ObjectMeta.encode ObjectMeta.decode
  reference : RoundTrips ObjectReference.encode ObjectReference.decode
  object : RoundTrips StatusObject.encode StatusObject.decode
  event : RoundTrips EventRecord.encode EventRecord.decode
  settings : RoundTrips ObserverSettings.encode ObserverSettings.decode

/-- Nothing is lost between writing and reading. -/
theorem wire_formats : WireFormats where
  condition := .of_decode_encode Condition.canonical_encode Condition.decode_encode
  schema := .of_decode_encode ConditionTypes.canonical_encode ConditionTypes.decode_encode
  metadata := .of_decode_encode ObjectMeta.canonical_encode ObjectMeta.decode_encode
  reference := .of_decode_encode ObjectReference.canonical_encode ObjectReference.decode_encode
  object := .of_decode_encode StatusObject.canonical_encode StatusObject.decode_encode
  event := .of_decode_encode EventRecord.canonical_encode EventRecord.decode_encode
  settings := .of_decode_encode ObserverSettings.canonical_encode ObserverSettings.decode_encode

end StatusWatch

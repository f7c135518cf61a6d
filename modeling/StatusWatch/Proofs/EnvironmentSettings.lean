import StatusWatch.Proofs.GuessedSettings
import StatusWatch.Proofs.SettingTrees
import StatusWatch.Settings.Load

/-!
# Settings by way of the environment

Settings that are put in environment variables one by one and loaded without a file are not always
the settings that were put there. What a variable says is guessed before it is known which setting
it is for, so a single projected key that looks like a scalar is refused, a text that does is
rewritten, and large numbers are rounded. Everything else survives, in whatever order the
variables stand.

- `Variable`: the variables, each with its name, the place of its setting and its text.
- `Environment.Holds`: an environment with the variables of given settings.
- `at?_overlay_settings`: what is found in the place of a variable.
- `ofSetting_of_at?`: a tree is converted value by value.
- `rereadSettings`, `load_of_holds`: what is loaded.
- `Survives`, `ReadBack`, `loaded_from_environment`: what becomes of settings, and which ones are
  kept.
-/

namespace StatusWatch

/-! ## Variables -/

namespace ObserverSettings

/-- The variables that the settings of an observer may be put in, one for each setting. -/
inductive Variable where
  | requeue | limit | scope | legacy | projection | level | json
deriving DecidableEq

namespace Variable

def all : List Variable := [requeue, limit, scope, legacy, projection, level, json]

theorem mem_all (x : Variable) : x ∈ all := by cases x <;> decide

/-- The place of the setting in a tree of settings. -/
def keys : Variable → List String
  | requeue => ["requeue_interval_secs"]
  | limit => ["max_concurrent_reconciles"]
  | scope => ["metrics", "namespace"]
  | legacy => ["metrics", "legacy_metrics"]
  | projection => ["metrics", "label_projection"]
  | level => ["logging", "level"]
  | json => ["logging", "json"]

/-- The name of the setting, which is its place with dots between the keys. -/
def settingName (x : Variable) : String := ".".intercalate x.keys

def name : Variable → String
  | requeue => "VIGIL_REQUEUE_INTERVAL_SECS"
  | limit => "VIGIL_MAX_CONCURRENT_RECONCILES"
  | scope => "VIGIL_METRICS__NAMESPACE"
  | legacy => "VIGIL_METRICS__LEGACY_METRICS"
  | projection => "VIGIL_METRICS__LABEL_PROJECTION"
  | level => "VIGIL_LOGGING__LEVEL"
  | json => "VIGIL_LOGGING__JSON"

/-- The text of a variable: numbers in decimal, truth values as words, keys with commas between
them. -/
def text (c : ObserverSettings) : Variable → String
  | requeue => toString c.requeueIntervalSecs.toNat
  | limit => toString c.maxConcurrentReconciles.toNat
  | scope => c.metrics.scope
  | legacy => toString c.metrics.legacyMetrics
  | projection => ",".intercalate c.metrics.labelProjection
  | level => c.logging.level
  | json => toString c.logging.json

/-- The value that the text of a variable stands for. -/
def value (c : ObserverSettings) (x : Variable) : Setting :=
  Environment.settingValue x.settingName (x.text c)

theorem settingName?_name (x : Variable) :
    Environment.settingName? x.name = some x.settingName := by
  cases x <;> decide

theorem read_settingName (x : Variable) : SettingPath.read x.settingName = x.keys.map .key := by
  cases x <;> decide

theorem map_foldCase_keys (x : Variable) : x.keys.map Setting.foldCase = x.keys := by
  cases x <;> decide

/-- The place of no setting lies above that of another one. -/
theorem apart_of_ne {x y : Variable} (h : y ≠ x) :
    (SettingPath.read y.settingName).Apart x.keys := by
  have hall : ∀ x ∈ all, ∀ y ∈ all, y ≠ x →
      SettingPath.Apart (y.keys.map .key) x.keys := by decide +kernel
  rw [read_settingName]
  exact hall x x.mem_all y y.mem_all h

end Variable

/-- All variables with the texts that stand for the given settings. -/
def asVariables (c : ObserverSettings) : List (String × String) :=
  Variable.all.map fun x => (x.name, x.text c)

end ObserverSettings

open ObserverSettings (Variable)

namespace Environment

/-- Among the variables that name a setting an environment has those of the given settings, in
any order, and no others. -/
def Holds (environment : List (String × String)) (c : ObserverSettings) : Prop :=
  ∀ v : String × String, (settingName? v.1).isSome → (v ∈ environment ↔ v ∈ c.asVariables)

theorem isPlain_settingValue (name text : String) : (settingValue name text).IsPlain := by
  unfold settingValue
  split
  · trivial
  · trivial
  · split
    · trivial
    · trivial
    · split <;> trivial

section Holds

variable {environment : List (String × String)} {c : ObserverSettings}

theorem mem_settings_iff (h : Holds environment c) (e : String × Setting) :
    e ∈ settings environment ↔ ∃ x : Variable, e = (x.settingName, x.value c) := by
  rw [settings, List.mem_filterMap]
  constructor
  · rintro ⟨v, hv, he⟩
    obtain ⟨name, hname, rfl⟩ := Option.map_eq_some_iff.mp he
    have hmem : v ∈ c.asVariables := (h v (by rw [hname]; rfl)).mp hv
    obtain ⟨x, -, rfl⟩ := List.mem_map.mp hmem
    rw [Variable.settingName?_name] at hname
    obtain rfl := Option.some.inj hname
    exact ⟨x, rfl⟩
  · rintro ⟨x, rfl⟩
    have hname := x.settingName?_name
    have hmem : (x.name, x.text c) ∈ c.asVariables :=
      List.mem_map.mpr ⟨x, x.mem_all, rfl⟩
    exact ⟨_, (h _ (by rw [hname]; rfl)).mpr hmem, by rw [hname]; rfl⟩

/-- What each variable says is found in its place, whatever the tree was before. -/
theorem at?_overlay_settings (h : Holds environment c) (root : Setting) (x : Variable) :
    (root.overlay (settings environment)).at? x.keys = some (x.value c) := by
  have hplain : ∀ e ∈ settings environment, e.2.IsPlain := by
    intro e he
    obtain ⟨y, rfl⟩ := (mem_settings_iff h e).mp he
    exact isPlain_settingValue _ _
  -- no two variables write along the same keys
  have hother : ∀ e ∈ settings environment, e = (x.settingName, x.value c) ∨
      (SettingPath.read e.1).Apart (x.keys.map Setting.foldCase) := by
    intro e he
    obtain ⟨y, rfl⟩ := (mem_settings_iff h e).mp he
    by_cases hyx : y = x
    · exact Or.inl (by rw [hyx])
    · rw [x.map_foldCase_keys]
      exact Or.inr (Variable.apart_of_ne hyx)
  have hmem := (mem_settings_iff h _).mpr ⟨x, rfl⟩
  have hfound := Setting.at?_overlay hplain hmem x.read_settingName hother root
  rwa [x.map_foldCase_keys] at hfound

end Holds

end Environment

/-! ## Conversion -/

namespace Setting

variable {root value : Setting} {name key : String}

theorem member?_of_get? (h : root.get? name = some value) (place : Nat) :
    root.member? name place = some value := by
  cases root with
  | table fields => exact h
  | _ => cases h

theorem isRecord_of_get? (h : root.get? name = some value) : root.isRecord = true := by
  cases root with
  | table fields => rfl
  | _ => cases h

theorem part_of_get? {α : Type} (h : root.get? name = some value) (place : Nat)
    (convert : Setting → Option α) (base : α) :
    root.part name place convert base = (convert value).elim (.error (.unfit name)) .ok := by
  simp only [part, member?_of_get? h]
  cases convert value <;> rfl

theorem inner_of_get? {α : Type} (h : root.get? name = some value)
    (hrecord : value.isRecord = true) (place : Nat) (convert : Setting → Except LoadError α)
    (base : α) : root.inner name place convert base = convert value := by
  simp only [inner, member?_of_get? h, hrecord, if_true]

theorem at?_singleton (key : String) : root.at? [key] = root.get? key := by
  cases h : root.get? key <;> simp [at?, h]

/-- What a setting is found in is a record. -/
theorem exists_record (h : root.at? [name, key] = some value) :
    ∃ record, root.get? name = some record ∧ record.isRecord = true := by
  obtain ⟨record, hrecord, hvalue⟩ := Option.bind_eq_some_iff.mp h
  rw [at?_singleton] at hvalue
  exact ⟨record, hrecord, isRecord_of_get? hvalue⟩

end Setting

namespace ObserverSettings

/-- A tree that has a value in the place of each variable is converted value by value. Of these
values the projection alone may be unfit. -/
theorem ofSetting_of_at? {root : Setting} {value : Variable → Setting}
    (h : ∀ x : Variable, root.at? x.keys = some (value x)) {c : ObserverSettings}
    (hrequeue : (value .requeue).asUInt64? = some c.requeueIntervalSecs)
    (hlimit : (value .limit).asUInt64? = some c.maxConcurrentReconciles)
    (hscope : (value .scope).asText? = some c.metrics.scope)
    (hlegacy : (value .legacy).asBool? = some c.metrics.legacyMetrics)
    (hlevel : (value .level).asText? = some c.logging.level)
    (hjson : (value .json).asBool? = some c.logging.json) :
    ofSetting root = (value .projection).asTexts?.elim (.error (.unfit "label_projection"))
      fun keys => .ok (c.withLabelProjection keys) := by
  -- a setting stands at the root or in one of the two records
  have houter (x : Variable) {key : String} (hkeys : x.keys = [key]) :
      root.get? key = some (value x) := by
    rw [← Setting.at?_singleton, ← hkeys, h x]
  have hinner (x : Variable) {name key : String} {record : Setting} (hkeys : x.keys = [name, key])
      (hrecord : root.get? name = some record) : record.get? key = some (value x) := by
    have hvalue := h x
    rw [hkeys, Setting.at?, hrecord, Option.bind_some, Setting.at?_singleton] at hvalue
    exact hvalue
  obtain ⟨metrics, hmetrics, hmetricsRecord⟩ := Setting.exists_record (h .scope)
  obtain ⟨logging, hlogging, hloggingRecord⟩ := Setting.exists_record (h .level)
  have hofMetrics : MetricsSettings.ofSetting metrics =
      (value .projection).asTexts?.elim (.error (.unfit "label_projection"))
        fun keys => .ok (c.withLabelProjection keys).metrics := by
    simp only [MetricsSettings.ofSetting, Setting.part_of_get? (hinner .scope rfl hmetrics),
      Setting.part_of_get? (hinner .legacy rfl hmetrics),
      Setting.part_of_get? (hinner .projection rfl hmetrics), hscope, hlegacy]
    cases (value .projection).asTexts? <;> rfl
  have hofLogging : LoggingSettings.ofSetting logging = .ok c.logging := by
    simp only [LoggingSettings.ofSetting, Setting.part_of_get? (hinner .level rfl hlogging),
      Setting.part_of_get? (hinner .json rfl hlogging), hlevel, hjson]
    rfl
  simp only [ofSetting, Setting.part_of_get? (houter .requeue rfl),
    Setting.part_of_get? (houter .limit rfl), hrequeue, hlimit,
    Setting.inner_of_get? hmetrics hmetricsRecord, hofMetrics,
    Setting.inner_of_get? hlogging hloggingRecord, hofLogging]
  cases (value .projection).asTexts? <;> rfl

/-! ## Loading -/

open Environment (Holds Kept KeptNumber Separable)

/-- What becomes of settings whose projection is a list again. -/
def rereadSettings (c : ObserverSettings) : ObserverSettings :=
  ⟨Environment.rereadNumber c.requeueIntervalSecs,
    Environment.rereadNumber c.maxConcurrentReconciles,
    { c.metrics with scope := Environment.reread c.metrics.scope },
    { c.logging with level := Environment.reread c.logging.level }⟩

/-- The settings whose every text, number and key comes back. -/
structure Survives (c : ObserverSettings) : Prop where
  projection : Separable c.metrics.labelProjection
  scope : Kept c.metrics.scope
  level : Kept c.logging.level
  requeue : KeptNumber c.requeueIntervalSecs
  limit : KeptNumber c.maxConcurrentReconciles

/-- What loading gives for settings that were put in the environment: it fails exactly for a
single key that is taken for a scalar, and else gives the settings with their texts and numbers
rewritten, which are the same settings exactly if all of them survive. -/
structure ReadBack (c : ObserverSettings) (result : Except LoadError ObserverSettings) :
    Prop where
  refused : ¬ Separable c.metrics.labelProjection → result = .error (.unfit "label_projection")
  loaded : Separable c.metrics.labelProjection → result = .ok c.rereadSettings
  survives_iff : result = .ok c ↔ c.Survives

variable {environment : List (String × String)} {c : ObserverSettings}

theorem load_of_holds (files : List SettingsFile) (h : Holds environment c) :
    load files none environment =
      (Environment.settingValue Environment.listSetting
        (",".intercalate c.metrics.labelProjection)).asTexts?.elim
          (.error (.unfit "label_projection"))
          fun keys => .ok (c.rereadSettings.withLabelProjection keys) :=
  ofSetting_of_at? (Environment.at?_overlay_settings h _)
    (Environment.asUInt64?_settingValue _ _) (Environment.asUInt64?_settingValue _ _)
    (Environment.asText?_settingValue (by decide) _) (Environment.asBool?_settingValue _ _)
    (Environment.asText?_settingValue (by decide) _) (Environment.asBool?_settingValue _ _)

theorem rereadSettings_eq_iff (hseparable : Separable c.metrics.labelProjection) :
    c.rereadSettings = c ↔ c.Survives := by
  obtain ⟨requeue, limit, ⟨scope, legacy, projection⟩, ⟨level, json⟩⟩ := c
  simp only [rereadSettings, mk.injEq, MetricsSettings.mk.injEq, LoggingSettings.mk.injEq,
    Environment.rereadNumber_eq_iff, Environment.reread_eq_iff, and_true]
  exact ⟨fun ⟨hrequeue, hlimit, hscope, hlevel⟩ => ⟨hseparable, hscope, hlevel, hrequeue, hlimit⟩,
    fun h => ⟨h.requeue, h.limit, h.scope, h.level⟩⟩

/-- Whatever settings with a projection of keys without commas are put in the environment, in
whatever order and beside whatever else, this is what is loaded. -/
theorem loaded_from_environment (files : List SettingsFile) (h : Holds environment c)
    (hne : c.metrics.labelProjection ≠ [])
    (hcomma : ∀ key ∈ c.metrics.labelProjection, ',' ∉ key.toList) :
    ReadBack c (load files none environment) := by
  have hload := load_of_holds files h
  have hrefused : ¬ Separable c.metrics.labelProjection →
      load files none environment = .error (.unfit "label_projection") := by
    intro hseparable
    rw [hload, Environment.asTexts?_of_not_separable hseparable]
    rfl
  have hloaded : Separable c.metrics.labelProjection →
      load files none environment = .ok c.rereadSettings := by
    intro hseparable
    rw [hload, Environment.asTexts?_of_separable hne hcomma hseparable]
    rfl
  refine ⟨hrefused, hloaded, ?_⟩
  -- keys whose text is taken for a scalar are refused, and then nothing is read back
  by_cases hseparable : Separable c.metrics.labelProjection
  · rw [hloaded hseparable, Except.ok.injEq, rereadSettings_eq_iff hseparable]
  · rw [hrefused hseparable]
    refine iff_of_false (fun h => ?_) fun h => hseparable h.projection
    cases h

/-- Two keys survive, with the variables in any order and another variable among them. -/
theorem loaded_from_environment_twoKeys :
    let c := (default : ObserverSettings).withLabelProjection ["1", "team"]
    let environment := c.asVariables.reverse ++ [("HOME", "/root")]
    Holds environment c ∧ c.metrics.labelProjection ≠ [] ∧
      (∀ key ∈ c.metrics.labelProjection, ',' ∉ key.toList) ∧
      load [] none environment = .ok c := by
  intro c environment
  have hholds : Holds environment c := by
    intro v hname
    have hhome : v ≠ ("HOME", "/root") := by
      rintro rfl
      revert hname
      decide
    simp [environment, hhome]
  have hne : c.metrics.labelProjection ≠ [] := by decide
  have hcomma : ∀ key ∈ c.metrics.labelProjection, ',' ∉ key.toList := by decide
  have hscope : Environment.guess? c.metrics.scope = none := by decide +kernel
  have hlevel : Environment.guess? c.logging.level = none := by decide +kernel
  have hsurvives : c.Survives :=
    { projection := fun key h => by cases h
      scope := fun value hvalue => by rw [hscope] at hvalue; cases hvalue
      level := fun value hvalue => by rw [hlevel] at hvalue; cases hvalue
      requeue := Or.inl (by decide)
      limit := Or.inl (by decide) }
  exact ⟨hholds, hne, hcomma,
    (loaded_from_environment [] hholds hne hcomma).survives_iff.mpr hsurvives⟩

/-- A single key that looks like a number is refused, with all other settings at their default
values. -/
theorem not_loaded_numericKey :
    let c := (default : ObserverSettings).withLabelProjection ["1"]
    c.metrics.labelProjection ≠ [] ∧ (∀ key ∈ c.metrics.labelProjection, ',' ∉ key.toList) ∧
      load [] none c.asVariables = .error (.unfit "label_projection") := by
  decide +kernel

end ObserverSettings

end StatusWatch

import StatusWatch.Settings.Value

/-!
# Places in trees of settings

Sources write one entry after the other into a tree. What is found at a place afterwards is what
the entry with that path wrote, whatever the tree was before and in whatever order the entries
come, as long as all other paths part from it.

- `Setting.at?`: what is found by following keys.
- `SettingPath.Apart`: a path that leaves a row of keys at some table.
- `get?_put`: what a table shows after a write below one of its keys.
- `at?_put`, `at?_put_of_apart`: a write is found at its path and changes nothing apart from it.
- `at?_overlay`: the same for all that a source says.
-/

namespace StatusWatch

/-- Whether a path leaves the way along the given keys at a table, so that what is written at
the one cannot be seen at the other. -/
def SettingPath.Apart : SettingPath → List String → Prop
  | .key name :: path, key :: keys => Setting.foldCase name ≠ key ∨ Apart path keys
  | _, _ => False

instance SettingPath.decidableApart : ∀ path keys, Decidable (SettingPath.Apart path keys)
  | .key name :: path, key :: keys =>
    have := decidableApart path keys
    inferInstanceAs (Decidable (Setting.foldCase name ≠ key ∨ SettingPath.Apart path keys))
  | [], _ => inferInstanceAs (Decidable False)
  | .item _ :: _, _ => inferInstanceAs (Decidable False)
  | .key _ :: _, [] => inferInstanceAs (Decidable False)

/-- No path leaves a row of keys after its end. -/
theorem SettingPath.not_apart_nil (path : SettingPath) : ¬ path.Apart [] := by
  cases path with
  | nil => exact id
  | cons step path => cases step <;> exact id

namespace Setting

/-- What is found by following keys. -/
def at? : List String → Setting → Option Setting
  | [], root => some root
  | key :: keys, root => (root.get? key).bind (at? keys)

/-- Whether a setting is no table. Tables are merged into what was there before. -/
def IsPlain : Setting → Prop
  | table _ => False
  | _ => True

theorem get?_put {value : Setting} (hplain : value.IsPlain) (name key : String)
    (path : SettingPath) (root : Setting) :
    (put value (.key name :: path) root).get? key =
      if foldCase name = key then some (put value path ((root.get? (foldCase name)).getD null))
      else root.get? key := by
  cases path with
  | cons step path => exact OrderedMap.find?_place ..
  | nil =>
    cases value with
    | table fields => exact hplain.elim
    | _ => exact OrderedMap.find?_place ..

/-- A write is found at its path. -/
theorem at?_put {value : Setting} (hplain : value.IsPlain) (keys : List String) :
    ∀ root : Setting, at? (keys.map foldCase) (put value (keys.map .key) root) = some value := by
  induction keys with
  | nil => exact fun _ => rfl
  | cons key keys ih =>
    intro root
    simp only [List.map_cons, at?]
    rw [get?_put hplain, if_pos rfl]
    exact ih _

/-- A write changes nothing apart from its path. -/
theorem at?_put_of_apart {value : Setting} (hplain : value.IsPlain) {path : SettingPath} :
    ∀ {keys : List String} {root : Setting}, path.Apart keys →
      at? keys (put value path root) = at? keys root := by
  induction path with
  | nil => exact fun h => h.elim
  | cons step path ih =>
    intro keys root h
    cases step with
    | item index => exact h.elim
    | key name =>
      cases keys with
      | nil => exact h.elim
      | cons key keys =>
        simp only [at?]
        rw [get?_put hplain]
        by_cases hkey : foldCase name = key
        · -- the write goes on below this key, so its path parts from the others further down
          have hpath : SettingPath.Apart path keys := h.resolve_left (not_not_intro hkey)
          rw [if_pos hkey, Option.bind_some, ih hpath, hkey]
          cases root.get? key with
          | some inner => rfl
          | none =>
            cases keys with
            | nil => exact (SettingPath.not_apart_nil path hpath).elim
            | cons key' keys => rfl
        · rw [if_neg hkey]

section Overlay

variable {source : List (String × Setting)} {keys : List String}

theorem at?_overlay_of_apart (hplain : ∀ e ∈ source, e.2.IsPlain)
    (hapart : ∀ e ∈ source, (SettingPath.read e.1).Apart keys) (root : Setting) :
    at? keys (root.overlay source) = at? keys root := by
  induction source generalizing root with
  | nil => rfl
  | cons e source ih =>
    -- the first entry leaves the place as it was, and so do the rest
    have hrest := ih (fun e' h => hplain e' (List.mem_cons_of_mem e h))
      (fun e' h => hapart e' (List.mem_cons_of_mem e h)) (put e.2 (SettingPath.read e.1) root)
    exact hrest.trans (at?_put_of_apart (hplain e List.mem_cons_self) (hapart e List.mem_cons_self))

/-- What a source says about a setting is found in its place, if all else that the source says is
about other places. -/
theorem at?_overlay (hplain : ∀ e ∈ source, e.2.IsPlain) {e : String × Setting} (hmem : e ∈ source)
    (hpath : SettingPath.read e.1 = keys.map .key)
    (hother : ∀ e' ∈ source, e' = e ∨ (SettingPath.read e'.1).Apart (keys.map foldCase))
    (root : Setting) : at? (keys.map foldCase) (root.overlay source) = some e.2 := by
  induction source generalizing root with
  | nil => cases hmem
  | cons first source ih =>
    have hplain' : ∀ e' ∈ source, e'.2.IsPlain :=
      fun e' h => hplain e' (List.mem_cons_of_mem first h)
    have hother' := fun e' h => hother e' (List.mem_cons_of_mem first h)
    show at? _ (overlay (put first.2 (SettingPath.read first.1) root) source) = _
    by_cases hlater : e ∈ source
    · exact ih hplain' hlater hother' _
    · -- The entry is the last one that is not apart from its place.
      have hfirst : first = e := ((List.mem_cons.mp hmem).resolve_right hlater).symm
      have hapart : ∀ e' ∈ source, (SettingPath.read e'.1).Apart (keys.map foldCase) :=
        fun e' h => (hother' e' h).resolve_left fun heq => hlater (heq ▸ h)
      rw [at?_overlay_of_apart hplain' hapart, hfirst, hpath]
      exact at?_put (hfirst ▸ hplain first List.mem_cons_self) keys root

end Overlay

end Setting

end StatusWatch

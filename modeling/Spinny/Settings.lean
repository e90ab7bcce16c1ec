import Spinny.Accounts
import Spinny.Startup

/-!
# The settings over a run

`Settings::set` is an `update`: it changes the row of a name, and nothing in the program makes
one. `Settings::get` reads a name without a row as the empty text.

* `run`: a sequence of `set`s.
* `setting_run`: what a name reads as after a run, on any database.
* `MapLaw`, `mapLaw_iff`: when the settings of a database just created behave as a map.
-/

namespace Spinny

open Bytes Sqlite Proc

variable [Affinity]

/-- The rows of `settings` that a name selects. -/
def Database.settingsOf (db : Database) (name : Bytes) : List (Int × SettingRow) :=
  db.settings.select fun _ r => r.name.eqLiteral name

/-- `update settings set value = .. where name = ..`. -/
def Database.setSetting (db : Database) (name : Bytes) (value : Text) : Database :=
  { db with
    settings := db.settings.updateWhere (fun _ r => r.name.eqLiteral name) fun r => { r with value } }

/-- `Settings::set<std::string>`. -/
def Settings.set (name value : Bytes) : Act Bytes := do
  execUpdate (nulFree name && nulFree value) fun db =>
    if h : nulFree value = true then db.setSetting name (.ofLiteral value h) else db
  return value

namespace Settings

/-! ## One call -/

/-- An update of the value keeps the names. -/
theorem settingsOf_setSetting (db : Database) (name : Bytes) (value : Text) (other : Bytes) :
    (db.setSetting name value).settingsOf other = (db.settingsOf other).map fun r =>
      if store other = store name then (r.1, { r.2 with value }) else r := by
  unfold Database.settingsOf Database.setSetting Table.select Table.updateWhere
  rw [List.filter_map]
  have hnames : ((fun r : Int × SettingRow => r.2.name.eqLiteral other) ∘ fun r =>
      if r.2.name.eqLiteral name = true then (r.1, { r.2 with value }) else r) =
      fun r => r.2.name.eqLiteral other := by
    funext r
    simp only [Function.comp_apply]
    split <;> rfl
  rw [hnames]
  refine List.map_congr_left fun r hr => ?_
  have hother : r.2.name.cell = store other := by
    simpa [Text.eqLiteral] using (List.mem_filter.mp hr).2
  have hiff : r.2.name.eqLiteral name = true ↔ store other = store name := by
    rw [Text.eqLiteral, hother, beq_iff_eq]
  by_cases h : store other = store name
  · rw [if_pos h, if_pos (hiff.mpr h)]
  · rw [if_neg h, if_neg (mt hiff.mp h)]

theorem setting_eq (db : Database) (name : Bytes) :
    db.setting name = ((db.settingsOf name).head?.map fun r => r.2.value.val).getD [] := by
  unfold Database.setting Database.settingsOf
  cases (db.settings.select fun _ r => r.name.eqLiteral name).head? <;> rfl

/-- What a name reads as after an update: the row must be there, and names that SQLite stores as
one are one. -/
theorem setting_setSetting (db : Database) (name : Bytes) (value : Text) (other : Bytes) :
    (db.setSetting name value).setting other =
      if db.settingsOf other ≠ [] ∧ store other = store name then value.val
      else db.setting other := by
  rw [setting_eq, setting_eq, settingsOf_setSetting]
  cases db.settingsOf other with
  | nil => simp
  | cons r rows =>
    by_cases h : store other = store name
    · simp [h]
    · simp [h]

/-- The call is a statement that SQLite accepts. -/
def accepted (c : Bytes × Bytes) : Bool := nulFree c.1 && nulFree c.2

theorem after_set {w : World} (hw : w.stale = false) (c : Bytes × Bytes) :
    (after (set c.1 c.2) w).stale = false ∧
      (accepted c = false → (after (set c.1 c.2) w).db = w.db) ∧
      (accepted c = true → ∃ value : Text, value.val = coerce c.2 ∧
        (after (set c.1 c.2) w).db = w.db.setSetting c.1 value) := by
  have hafter : after (set c.1 c.2) w = after (execUpdate (accepted c) fun db =>
      if h : nulFree c.2 = true then db.setSetting c.1 (.ofLiteral c.2 h) else db) w := by
    unfold set
    rw [after_bind]
    split <;> rfl
  rw [hafter, after_execUpdate]
  cases hc : accepted c with
  | false => simp
  | true =>
    have hvalue : nulFree c.2 = true := by
      simp only [accepted, Bool.and_eq_true] at hc
      exact hc.2
    refine ⟨by simp [hw], by simp, fun _ => ⟨.ofLiteral c.2 hvalue, rfl, ?_⟩⟩
    simp [hw, hvalue]

/-! ## A run -/

/-- The world after these calls of `set`. -/
def run (w : World) (calls : List (Bytes × Bytes)) : World :=
  calls.foldl (fun w c => after (set c.1 c.2) w) w

/-- The value of the last accepted call for a name, as SQLite compares names. -/
def lastWritten (calls : List (Bytes × Bytes)) (name : Bytes) : Option Bytes :=
  (calls.reverse.find? fun c => accepted c && store name == store c.1).map (·.2)

theorem lastWritten_cons (c : Bytes × Bytes) (cs : List (Bytes × Bytes)) (name : Bytes) :
    lastWritten (c :: cs) name = (lastWritten cs name).or
      (if accepted c = true ∧ store name = store c.1 then some c.2 else none) := by
  unfold lastWritten
  rw [List.reverse_cons, List.find?_append, List.find?_singleton, Option.map_or]
  by_cases h : accepted c = true ∧ store name = store c.1
  · simp [h]
  · rw [if_neg h, if_neg (by simpa using h)]
    rfl

theorem stale_run {w : World} (hw : w.stale = false) (calls : List (Bytes × Bytes)) :
    (run w calls).stale = false := by
  induction calls generalizing w with
  | nil => exact hw
  | cons c cs ih => exact ih (after_set hw c).1

/-- **The settings after a run**: a name with a row reads as the last value that was written for
it, a name without one as the empty text. -/
theorem setting_run {w : World} (hw : w.stale = false) (calls : List (Bytes × Bytes))
    (name : Bytes) :
    (run w calls).db.setting name =
      if w.db.settingsOf name = [] then []
      else ((lastWritten calls name).map coerce).getD (w.db.setting name) := by
  induction calls generalizing w with
  | nil =>
    have hnone : lastWritten [] name = none := rfl
    rw [hnone, Option.map_none, Option.getD_none]
    change w.db.setting name = _
    split
    · rename_i hempty
      rw [setting_eq, hempty]
      rfl
    · rfl
  | cons c cs ih =>
    obtain ⟨hstale, hrefused, haccepted⟩ := after_set hw c
    rw [lastWritten_cons]
    refine (ih hstale).trans ?_
    cases hc : accepted c with
    | false =>
      rw [hrefused hc]
      simp
    | true =>
      obtain ⟨value, hvalue, hdb⟩ := haccepted hc
      rw [hdb, settingsOf_setSetting, setting_setSetting, hvalue]
      by_cases hempty : w.db.settingsOf name = []
      · simp [hempty]
      · by_cases hname : store name = store c.1
        · cases lastWritten cs name <;> simp [hempty, hname]
        · simp [hempty, hname]

/-- What `get` gives after a run. -/
theorem outcome_get_run {w : World} (hw : w.stale = false) (calls : List (Bytes × Bytes))
    (name : Bytes) :
    outcome (get name) (run w calls) =
      if nulFree name = true then .ok ((run w calls).db.setting name)
      else .error .databaseError := by
  rw [get, outcome_execSelect, stale_run hw]
  cases nulFree name <;> simp

/-! ## A database just created -/

/-- The rows of a file's `settings`, read as strings, are those of the database. -/
def Represents (t : StoredTable) (db : Database) : Prop :=
  (t.rows.rows.map fun r => (r.1, getString r.2 0, getString r.2 1)) =
    db.settings.rows.map fun r => (r.1, some r.2.name.val, some r.2.value.val)

/-- The database is that of a file that a startup has just created. -/
structure JustCreated (w : World) : Prop where
  file : ∃ (c : Startup.Readings) (tables : List (TableDescription Startup.Readings))
    (sc : Schema) (t : StoredTable), tables.Perm Startup.registered ∧
      Returns (checkAndCreateTables c tables) .empty () sc ∧
      sc.find (lit "settings") = some t ∧ Represents t w.db
  ready : w.stale = false

/-- The settings behave as a map along a run. -/
structure MapLaw (w : World) (calls : List (Bytes × Bytes)) : Prop where
  /-- The last value of each name comes back. -/
  last : ∀ name value, calls.reverse.lookup name = some value →
    outcome (get name) (run w calls) = .ok value
  /-- A call leaves what the other names read as. -/
  others : ∀ before c behind, calls = before ++ c :: behind → ∀ other, other ≠ c.1 →
    outcome (get other) (run w (before ++ [c])) = outcome (get other) (run w before)

/-- A file that was just created has no settings. -/
theorem JustCreated.settingsOf_eq {w : World} (hw : JustCreated w) (name : Bytes) :
    w.db.settingsOf name = [] := by
  obtain ⟨c, tables, sc, t, htables, hret, ht, hrows⟩ := hw.file
  have hd : Startup.settingsDesc ∈ tables := htables.mem_iff.mpr (by simp [Startup.registered])
  obtain ⟨t', ht', -, hfresh⟩ := (Startup.checkedAll htables hret).created _ hd rfl
  obtain rfl : t' = t := Option.some.inj (ht'.symm.trans ht)
  rw [hfresh rfl] at hrows
  have hnil : w.db.settings.rows = [] := List.map_eq_nil_iff.mp hrows.symm
  unfold Database.settingsOf Table.select
  rw [hnil]
  rfl

/-- Every name reads as the empty text, whatever was set. -/
theorem JustCreated.outcome_get {w : World} (hw : JustCreated w) (calls : List (Bytes × Bytes))
    (name : Bytes) :
    outcome (get name) (run w calls) =
      if nulFree name = true then .ok [] else .error .databaseError := by
  rw [outcome_get_run hw.ready, setting_run hw.ready, if_pos (hw.settingsOf_eq name)]

/-- **The settings of a database just created** are a map along exactly the runs that end with an
empty value for each name. -/
theorem mapLaw_iff (w : World) (hw : JustCreated w) (calls : List (Bytes × Bytes)) :
    MapLaw w calls ↔
      ∀ name value, calls.reverse.lookup name = some value → nulFree name = true ∧ value = [] := by
  constructor
  · intro h name value hlast
    have hget := h.last name value hlast
    rw [hw.outcome_get] at hget
    split_ifs at hget with hnul
    · exact ⟨hnul, (Except.ok.inj hget).symm⟩
  · intro h
    refine ⟨fun name value hlast => ?_, fun before c behind _ other _ => ?_⟩
    · obtain ⟨hnul, rfl⟩ := h name value hlast
      rw [hw.outcome_get, if_pos hnul]
    · rw [hw.outcome_get, hw.outcome_get]

omit [Affinity] in
/-- A world with the file of a startup. -/
theorem exists_justCreated : ∃ _ : Affinity, ∃ w : World, JustCreated w := by
  let _ : Affinity := integerAffinity
  let c : Startup.Readings := ⟨lit "t", .notADateTime⟩
  obtain ⟨sc, hret⟩ := Startup.startup_returns (c := c) (by decide) (.refl Startup.registered)
    fun d _ => .inl (rfl : Schema.empty.find d.tableName = none)
  obtain ⟨t, ht, -, hfresh⟩ := (Startup.checkedAll (.refl _) hret).created Startup.settingsDesc
    (by simp [Startup.registered]) rfl
  refine ⟨integerAffinity, .start .empty, ⟨c, _, sc, t, .refl _, hret, ht, ?_⟩, rfl⟩
  rw [hfresh rfl]
  rfl

omit [Affinity] in
theorem cleared_mapLaw : ∃ _ : Affinity, ∃ w : World, JustCreated w ∧
    MapLaw w [(lit "AllowGuests", lit "WithName"), (lit "AllowGuests", [])] := by
  obtain ⟨inst, w, hw⟩ := exists_justCreated
  refine ⟨inst, w, hw, (mapLaw_iff w hw _).mpr fun name value hlast => ?_⟩
  by_cases hname : name = lit "AllowGuests"
  · subst hname
    obtain rfl : [] = value := by simpa using hlast
    exact ⟨by decide, rfl⟩
  · have hne : (name == lit "AllowGuests") = false := by simpa using hname
    simp [List.lookup, hne] at hlast

omit [Affinity] in
/-- The first value of a name is lost. -/
theorem first_set_lost : ¬ ∀ (_ : Affinity) (w : World), JustCreated w →
    ∀ calls : List (Bytes × Bytes), MapLaw w calls := by
  intro h
  obtain ⟨inst, w, hw⟩ := exists_justCreated
  have hget := (h inst w hw [(lit "AllowGuests", lit "WithName")]).last (lit "AllowGuests")
    (lit "WithName") (by decide)
  rw [hw.outcome_get] at hget
  exact absurd hget (by decide)

end Settings

end Spinny

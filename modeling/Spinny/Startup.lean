import Spinny.RowClasses
import Spinny.Sqlite.CheckTables
import Spinny.User

/-!
# The tables of a startup

The descriptions that the program registers, and what `check_and_create_tables` leaves of a file
for them. They register themselves as the objects of several files are initialized, in an order
that the program does not choose.

* `registered`: the descriptions.
* `Prepared`: every table is there with its columns, nothing is lost, and a second call is idle.
* `prepared_iff`: the files that are left so.
-/

namespace Spinny.Startup

open Bytes Boost Sqlite Proc

/-! ## The descriptions -/

/-- What `User::create` reads beside the database. -/
structure Readings where
  ticket : Bytes
  now : PTime

/-- A description with the `checked_callback` of the base class. -/
def plain (td : Description) (fieldTypes : List Bytes) : TableDescription Readings where
  toDescription := td
  fieldTypes
  first := none

/-- `song_desc`. -/
def songDesc : TableDescription Readings := plain Rows.Song.tableDescription Rows.Song.fieldTypes

/-- `artist_desc`. -/
def artistDesc : TableDescription Readings :=
  plain Rows.Artist.tableDescription Rows.Artist.fieldTypes

/-- `album_desc`. -/
def albumDesc : TableDescription Readings :=
  plain Rows.Album.tableDescription Rows.Album.fieldTypes

/-- `md_desc`. -/
def mdDesc : TableDescription Readings :=
  plain Rows.MusicDir.tableDescription Rows.MusicDir.fieldTypes

/-- `pl_song_desc`. -/
def plSongDesc : TableDescription Readings where
  tableName := lit "playlist_songs"
  fields := [lit "present_order", lit "song_id", lit "playlist_id"]
  fieldTypes := [lit "int", lit "int", lit "int"]
  first := none

/-- `settings_desc`. -/
def settingsDesc : TableDescription Readings where
  tableName := lit "settings"
  fields := [lit "name", lit "value"]
  fieldTypes := [lit "string", lit "string"]
  first := none

/-- The list of `PlayList::create( "All Songs", .. )`. -/
def allSongs (order : Int32) : Rows.Row :=
  .playList ⟨lit "All Songs", lit "All the songs in your library", lit "present_order desc", order⟩

section

variable [Affinity]

/-- `pl_desc`. -/
def plDesc : TableDescription Readings where
  toDescription := Rows.PlayList.tableDescription
  fieldTypes := Rows.PlayList.fieldTypes
  first := some fun _ sc =>
    (sc.nextOf (lit "playlists") (lit "present_order")).map fun order => (allSongs order).saved 0

/-- The user of `User::create( "Admin", "admin" )`, with its role. -/
def admin (c : Readings) : Rows.Row :=
  .user ⟨lit "Admin", lit "admin", c.ticket, c.now, Int32.ofInt User.adminRole⟩

/-- `user_desc`. -/
def userDesc : TableDescription Readings where
  toDescription := Rows.User.tableDescription
  fieldTypes := Rows.User.fieldTypes
  first := some fun c _ => some ((admin c).saved 0)

/-- The descriptions of the program. -/
def registered : List (TableDescription Readings) :=
  [songDesc, artistDesc, albumDesc, mdDesc, plSongDesc, plDesc, userDesc, settingsDesc]

/-! ## The descriptions agree with SQLite -/

/-- A registered description is that of a row class, or one of the two without a class. -/
theorem registered_cases {d : TableDescription Readings} (hd : d ∈ registered) :
    (∃ r : Rows.Row, d.toDescription = r.tableDescription ∧ d.fieldTypes = r.fieldTypes) ∨
      d = plSongDesc ∨ d = settingsDesc := by
  simp only [registered, List.mem_cons, List.not_mem_nil, or_false] at hd
  rcases hd with rfl | rfl | rfl | rfl | rfl | rfl | rfl | rfl
  · exact .inl ⟨.song ⟨0, 0, 0, [], [], 0, 0, 0, 0⟩, rfl, rfl⟩
  · exact .inl ⟨.artist ⟨[]⟩, rfl, rfl⟩
  · exact .inl ⟨.album ⟨[]⟩, rfl, rfl⟩
  · exact .inl ⟨.musicDir ⟨0, []⟩, rfl, rfl⟩
  · exact .inr (.inl rfl)
  · exact .inl ⟨allSongs 0, rfl, rfl⟩
  · exact .inl ⟨admin ⟨[], .notADateTime⟩, rfl, rfl⟩
  · exact .inr (.inr rfl)

theorem registered_columns : ∀ d ∈ registered, d.toDescription.Columns d.fieldTypes := by
  intro d hd
  obtain ⟨r, htable, htypes⟩ | rfl | rfl := registered_cases hd
  · rw [htable, htypes]
    exact r.columns
  · exact .of _ _ (by decide)
  · exact .of _ _ (by decide)

theorem registered_types : ∀ d ∈ registered, ∀ ty ∈ d.fieldTypes, isField ty = true := by
  intro d hd
  obtain ⟨r, -, htypes⟩ | rfl | rfl := registered_cases hd
  · rw [htypes]
    exact r.fieldTypes_isField
  · decide
  · decide

/-- No two registered tables have one name to SQLite. -/
theorem registered_names :
    registered.Pairwise fun d e => lower d.tableName ≠ lower e.tableName :=
  of_decide_eq_true rfl

/-- Only playlists and users have a first object. -/
theorem first_cases {d : TableDescription Readings} (hd : d ∈ registered)
    {make : Readings → Schema → Option Saved} (hmake : d.first = some make) :
    d = plDesc ∨ d = userDesc := by
  simp only [registered, List.mem_cons, List.not_mem_nil, or_false] at hd
  rcases hd with rfl | rfl | rfl | rfl | rfl | rfl | rfl | rfl
  case inr.inr.inr.inr.inr.inl => exact .inl rfl
  case inr.inr.inr.inr.inr.inr.inl => exact .inr rfl
  all_goals cases hmake

theorem registered_sound : ∀ d ∈ registered, d.Sound := by
  intro d hd
  refine ⟨registered_columns d hd, registered_types d hd, ?_⟩
  intro make hmake c sc obj hobj
  rcases first_cases hd hmake with rfl | rfl
  · obtain rfl := Option.some.inj hmake
    obtain ⟨order, -, rfl⟩ := Option.map_eq_some_iff.mp hobj
    exact ⟨rfl, _, (allSongs order).literals_ne, (allSongs order).tableInsertValues_eq⟩
  · obtain rfl := Option.some.inj hmake
    obtain rfl := Option.some.inj hobj
    exact ⟨rfl, _, (admin c).literals_ne, (admin c).tableInsertValues_eq⟩

theorem startable {c : Readings} (hc : nulFree c.ticket = true) :
    ∀ d ∈ registered, d.Startable c := by
  intro d hd make hmake sc hfresh
  rcases first_cases hd hmake with rfl | rfl
  · obtain rfl := Option.some.inj hmake
    have horder : sc.nextOf (lit "playlists") (lit "present_order") = some 0 := by
      change sc.find (lit "playlists") = some plDesc.fresh at hfresh
      unfold Schema.nextOf
      rw [hfresh]
      rfl
    refine ⟨(allSongs 0).saved 0, (allSongs 0).literals, ?_, rfl,
      (allSongs 0).tableInsertValues_eq, (allSongs 0).length_literals, ?_⟩
    · dsimp only
      rw [horder]
      rfl
    · rw [Rows.Row.clean_literals]
      decide +kernel
  · obtain rfl := Option.some.inj hmake
    refine ⟨_, _, rfl, rfl, (admin c).tableInsertValues_eq, (admin c).length_literals, ?_⟩
    rw [Rows.Row.clean_literals]
    simp only [admin, Rows.Row.strings, List.all_cons, hc]
    decide +kernel

/-! ## What a startup leaves -/

section

variable {c : Readings} {tables : List (TableDescription Readings)} {sc sc' : Schema}

/-- What a startup should leave of the file `sc`. -/
structure Prepared (tables : List (TableDescription Readings)) (sc sc' : Schema) : Prop where
  columns : ∀ d ∈ tables, ∃ t, sc'.find d.tableName = some t ∧ t.has d.fields = true
  playLists : ∃ t, sc'.find (lit "playlists") = some t ∧ t.rows.rows ≠ []
  users : ∃ t, sc'.find (lit "users") = some t ∧ t.rows.rows ≠ []
  /-- Existing rows are unchanged. -/
  within : Schema.Within sc sc'
  again : ∀ c, Returns (checkAndCreateTables c tables) sc' () sc'

theorem checkedAll (htables : tables.Perm registered)
    (hret : Returns (checkAndCreateTables c tables) sc () sc') : CheckedAll tables sc sc' := by
  refine checked_all (fun d hd => registered_sound d (htables.mem_iff.mp hd)) ?_ hret
  exact (htables.pairwise_iff Ne.symm).mpr registered_names

omit [Affinity] in
/-- A description with a first object finds a row. -/
theorem nonempty_of_served {d : TableDescription Readings} (hd : Served d sc)
    (hfirst : d.first.isSome = true) : ∃ t, sc.find d.tableName = some t ∧ t.rows.rows ≠ [] := by
  obtain ⟨n, hcount, hn⟩ := hd.filled hfirst
  unfold Schema.count at hcount
  obtain ⟨t, ht, hlen⟩ := Option.map_eq_some_iff.mp hcount
  refine ⟨t, ht, fun hnil => hn ?_⟩
  rw [← hlen, hnil]
  rfl

/-- **A startup**, for every order in which the descriptions were registered: the file is left as
it should be exactly if the registered tables that were there had their columns. -/
theorem prepared_iff (c : Readings) (htables : tables.Perm registered) (sc sc' : Schema)
    (hret : Returns (checkAndCreateTables c tables) sc () sc') :
    Prepared tables sc sc' ↔
      ∀ d ∈ registered, ∀ t, sc.find d.tableName = some t → t.has d.fields = true := by
  have hall := checkedAll htables hret
  constructor
  · intro h d hd t ht
    obtain ⟨t', ht', hhas⟩ := h.columns d (htables.mem_iff.mpr hd)
    obtain ⟨t₁, ht₁, hext⟩ := hall.within.find ht
    obtain rfl : t₁ = t' := Option.some.inj (ht₁.symm.trans ht')
    rw [← hext.has]
    exact hhas
  · intro h
    refine ⟨fun d hd => ?_, ?_, ?_, hall.within, fun c => again hall.served⟩
    · have hreg := htables.mem_iff.mp hd
      cases hfind : sc.find d.tableName with
      | none =>
        obtain ⟨t, ht, hext, -⟩ := hall.created d hd hfind
        exact ⟨t, ht, (hext.has _).trans (fresh_has (registered_sound d hreg))⟩
      | some t =>
        obtain ⟨t', ht', hext⟩ := hall.within.find hfind
        exact ⟨t', ht', (hext.has _).trans (h d hreg t hfind)⟩
    · have hd : plDesc ∈ registered := by simp [registered]
      exact nonempty_of_served (hall.served _ (htables.mem_iff.mpr hd)) rfl
    · have hd : userDesc ∈ registered := by simp [registered]
      exact nonempty_of_served (hall.served _ (htables.mem_iff.mpr hd)) rfl

/-- A startup returns where every registered table is missing or was checked before. -/
theorem startup_returns (hc : nulFree c.ticket = true) (htables : tables.Perm registered)
    (h : ∀ d ∈ registered, sc.find d.tableName = none ∨ Served d sc) :
    ∃ sc', Returns (checkAndCreateTables c tables) sc () sc' :=
  loop_returns (fun d hd => registered_sound d (htables.mem_iff.mp hd))
    ((htables.pairwise_iff Ne.symm).mpr registered_names)
    (fun d hd => startable hc d (htables.mem_iff.mp hd)) fun d hd => h d (htables.mem_iff.mp hd)

/-! ## An empty file, and one that lost a column -/

omit [Affinity] in
theorem empty_prepared : ∃ (_ : Affinity) (c : Readings) (sc' : Schema),
    Returns (checkAndCreateTables c registered) .empty () sc' ∧ Prepared registered .empty sc' := by
  let _ : Affinity := integerAffinity
  let c : Readings := ⟨lit "t", .notADateTime⟩
  obtain ⟨sc', hret⟩ := startup_returns (c := c) (by decide) (.refl registered)
    fun d _ => .inl (rfl : Schema.empty.find d.tableName = none)
  refine ⟨integerAffinity, c, sc', hret, ?_⟩
  exact (prepared_iff c (.refl registered) .empty sc' hret).mpr fun d _ t ht => by cases ht

/-- A file with the names of the settings, without their values. -/
def namesOnly : Schema where
  tables := [.created (lit "settings") [(lit "name", lit "string")]]
  distinct := List.pairwise_singleton _ _

omit [Affinity] in
/-- The names are found, and no one asks for the values. -/
theorem namesOnly_not_prepared : ¬ ∀ (_ : Affinity) (c : Readings)
    (tables : List (TableDescription Readings)), tables.Perm registered → ∀ sc sc' : Schema,
      Returns (checkAndCreateTables c tables) sc () sc' → Prepared tables sc sc' := by
  intro h
  let _ : Affinity := integerAffinity
  let c : Readings := ⟨lit "t", .notADateTime⟩
  have hfound : ∀ d ∈ registered, (namesOnly.find d.tableName).isNone = true ∨
      namesOnly.listed d.tableName = true ∧ d.first.isSome = false := by
    decide
  have hserved : ∀ d ∈ registered, namesOnly.find d.tableName = none ∨ Served d namesOnly :=
    fun d hd => (hfound d hd).imp Option.isNone_iff_eq_none.mp fun hlisted =>
      ⟨hlisted.1, fun hfirst => absurd hfirst (by simp [hlisted.2])⟩
  obtain ⟨sc', hret⟩ := startup_returns (c := c) (by decide) (.refl registered) hserved
  obtain ⟨t, ht, hhas⟩ := (h integerAffinity c registered (.refl _) namesOnly sc' hret).columns
    settingsDesc (by simp [registered])
  have hbefore : namesOnly.find settingsDesc.tableName =
      some (.created (lit "settings") [(lit "name", lit "string")]) := rfl
  obtain ⟨t', ht', hext⟩ := (checkedAll (.refl registered) hret).within.find hbefore
  obtain rfl : t' = t := Option.some.inj (ht'.symm.trans ht)
  rw [hext.has] at hhas
  exact absurd hhas (by decide)

end

end

end Spinny.Startup

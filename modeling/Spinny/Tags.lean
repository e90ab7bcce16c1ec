import Spinny.Library

/-!
# The artists and albums of a tag

`Artist::find_or_create` and `Album::find_or_create`, which `Song::create_from_file` calls with
the names that a file's tag holds.

* `Names`: one of the two tables of names.
* `findsOrCreates_iff`: when the row of a name is found or made.
-/

namespace Spinny

open Bytes Sqlite Proc

variable [Affinity]

/-- A table of names with the class of its rows. -/
structure Names (α : Type) where
  table : Database → Table NameRow
  setTable : Table NameRow → Database → Database
  make : Int → Bytes → α
  dbId : α → Int

namespace Names

variable {α : Type} (n : Names α)

/-- `load_one( "name", name )`: the pointer it returns is not null. -/
def loadOne (name : Bytes) : Act (Option α) := do
  return some (← Spinny.loadOne (nulFree name) fun db =>
    ((n.table db).select fun _ r => r.name.eqLiteral name).map fun r => n.make r.1 r.2.name.val)

/-- A new object with the name, saved. -/
def create (name : Bytes) : Act α := do
  let id := (n.table (← get).db).nextId
  execUpdate (nulFree name) fun db =>
    if h : nulFree name = true then n.setTable ((n.table db).insert ⟨.ofLiteral name h⟩) db else db
  return n.make id name

/-- `find_or_create`. -/
def findOrCreate (name : Bytes) : Act α := do
  match ← n.loadOne name with
  | some ret => return ret
  | none => n.create name

end Names

/-- `artists`. -/
def artistNames : Names Artist where
  table := Database.artists
  setTable t db := { db with artists := t }
  make := Artist.mk
  dbId := Artist.dbId

/-- `albums`. -/
def albumNames : Names Album where
  table := Database.albums
  setTable t db := { db with albums := t }
  make := Album.mk
  dbId := Album.dbId

/-- `Artist::find_or_create`. -/
def Artist.findOrCreate (name : Bytes) : Act Artist := artistNames.findOrCreate name

/-- `Album::find_or_create`. -/
def Album.findOrCreate (name : Bytes) : Act Album := albumNames.findOrCreate name

namespace Names

variable {α : Type} (n : Names α)

/-- The rows that have the name. -/
def having (name : Bytes) (db : Database) : List (Int × NameRow) :=
  (n.table db).select fun _ r => r.name.eqLiteral name

/-- `find_or_create` comes to an object whose row has the name, after adding a row if there was
none; once more it comes to the same row and adds nothing. -/
structure FindsOrCreates (name : Bytes) (w : World) (a : α) : Prop where
  returns : outcome (n.findOrCreate name) w = .ok a
  dbId_ne : n.dbId a ≠ 0
  row : ∃ r ∈ n.having name (after (n.findOrCreate name) w).db, r.1 = n.dbId a
  found : n.having name w.db ≠ [] →
    n.table (after (n.findOrCreate name) w).db = n.table w.db
  created : n.having name w.db = [] → ∃ r,
    (n.table (after (n.findOrCreate name) w).db).rows = (n.table w.db).rows ++ [r]
  again : ∃ b, outcome (n.findOrCreate name) (after (n.findOrCreate name) w) = .ok b ∧
    n.dbId b = n.dbId a
  againKeeps : n.table (after (n.findOrCreate name) (after (n.findOrCreate name) w)).db =
    n.table (after (n.findOrCreate name) w).db

/-- A miss leaves `load_one` with an exception, so nothing is ever made. -/
theorem findOrCreate_eq (name : Bytes) : n.findOrCreate name =
    Spinny.loadOne (nulFree name) fun db =>
      (n.having name db).map fun r => n.make r.1 r.2.name.val := by
  unfold findOrCreate loadOne having
  refine Proc.ext (fun w => ?_) fun w => ?_
  · rw [bind_pure_comp, outcome_bind, outcome_map, after_map]
    cases outcome (Spinny.loadOne _ _) w <;> rfl
  · rw [bind_pure_comp, after_bind, outcome_map, after_map]
    cases outcome (Spinny.loadOne _ _) w <;> rfl

theorem outcome_findOrCreate (name : Bytes) (w : World) :
    outcome (n.findOrCreate name) w =
      if w.stale = true ∨ nulFree name = false then .error .databaseError
      else
        match n.having name w.db with
        | r :: _ => .ok (n.make r.1 r.2.name.val)
        | [] => .error .notFound := by
  rw [findOrCreate_eq, outcome_loadOne]
  cases n.having name w.db <;> rfl

theorem after_findOrCreate (name : Bytes) (w : World) :
    after (n.findOrCreate name) w = { w with stale := w.stale || !nulFree name } := by
  rw [findOrCreate_eq, after_loadOne]

/-- When `find_or_create` does what its name says: a row has the name. -/
theorem findsOrCreates_iff (hn : ∀ id name, n.dbId (n.make id name) = id) (name : Bytes)
    (w : World) :
    (∃ a, n.FindsOrCreates name w a) ↔
      w.stale = false ∧ nulFree name = true ∧
        ∃ r, (n.having name w.db).head? = some r ∧ r.1 ≠ 0 := by
  constructor
  · rintro ⟨a, h⟩
    have ho := h.returns
    rw [outcome_findOrCreate] at ho
    split at ho
    · cases ho
    · rename_i hc
      push Not at hc
      refine ⟨by simpa using hc.1, by simpa using hc.2, ?_⟩
      cases hrows : n.having name w.db with
      | nil => simp [hrows] at ho
      | cons r rows =>
        simp only [hrows, Except.ok.injEq] at ho
        refine ⟨r, rfl, ?_⟩
        rw [← hn r.1 r.2.name.val, ho]
        exact h.dbId_ne
  · rintro ⟨hstale, hname, r, hr, hne⟩
    have hw : after (n.findOrCreate name) w = w := by
      rw [after_findOrCreate, hname, Bool.not_true, Bool.or_false]
    have ho : outcome (n.findOrCreate name) w = .ok (n.make r.1 r.2.name.val) := by
      obtain ⟨rows, hrows⟩ := List.head?_eq_some_iff.mp hr
      rw [outcome_findOrCreate, if_neg (by simp [hstale, hname]), hrows]
    have hmem : r ∈ n.having name w.db := List.mem_of_head? hr
    refine ⟨_, ho, ?_, ?_, ?_, ?_, ?_, ?_⟩
    · rw [hn]
      exact hne
    · exact ⟨r, by rw [hw]; exact hmem, (hn _ _).symm⟩
    · intro _
      rw [hw]
    · intro hnil
      rw [hnil] at hmem
      cases hmem
    · exact ⟨_, by rw [hw]; exact ho, rfl⟩
    · rw [hw, hw]

end Names

/-- `find_or_create` of either class does what its name says if and only if a row has the name:
the name holds no NUL, the statement buffer is empty, and the first row has a rowid other than 0. -/
theorem findOrCreate_iff (name : Bytes) (w : World) :
    ((∃ a, artistNames.FindsOrCreates name w a) ↔
        w.stale = false ∧ nulFree name = true ∧
          ∃ r, (artistNames.having name w.db).head? = some r ∧ r.1 ≠ 0) ∧
      ((∃ a, albumNames.FindsOrCreates name w a) ↔
        w.stale = false ∧ nulFree name = true ∧
          ∃ r, (albumNames.having name w.db).head? = some r ∧ r.1 ≠ 0) :=
  ⟨artistNames.findsOrCreates_iff (fun _ _ => rfl) name w,
    albumNames.findsOrCreates_iff (fun _ _ => rfl) name w⟩

omit [Affinity] in
/-- The first artist of a new library is not found and not made. -/
theorem newArtist_raises :
    outcome (@Artist.findOrCreate integerAffinity (lit "Sonny Stitt"))
        (@World.start integerAffinity (@Database.empty integerAffinity)) = .error .notFound ∧
      ¬ ∃ a, @Names.FindsOrCreates integerAffinity Artist (@artistNames integerAffinity)
        (lit "Sonny Stitt") (@World.start integerAffinity (@Database.empty integerAffinity)) a := by
  let _ := integerAffinity
  have h : outcome (artistNames.findOrCreate (lit "Sonny Stitt")) (World.start Database.empty) =
      .error .notFound := by
    rw [Names.outcome_findOrCreate, if_neg (by decide)]
    rfl
  refine ⟨h, ?_⟩
  rintro ⟨a, ha⟩
  cases h.symm.trans ha.returns

end Spinny

import Spinny.Inserts
import Spinny.Orderings

/-!
# A playlist inserted into a playlist

`PlayList::insert( PlayList::ptr, int )` raises the entries by the size of the other playlist, reads
the songs to insert and adds them from the position on. What it reads are its own songs, and it
counts the position up before it uses it.

* `InsertsPlayList`: what the entries are after the other playlist is inserted.
* `insertPlayList_iff`: when `insert` comes to this, which takes that there is nothing to insert.
-/

namespace Spinny

open Bytes Sqlite Proc

variable [Affinity]

/-- A statement that lists the songs of a playlist gives out none but these. -/
def Env.ListsJoined (env : Env) : Prop :=
  ∀ text order, env.orderJoined text = some order →
    ∀ db rows sorted, order db rows = some sorted → ∀ r ∈ sorted, r ∈ rows

/-- The songs of a playlist in its order, where SQLite takes the order. -/
def PlayListFields.listed (env : Env) (p : PlayListFields) (w : World) : Option (List Int) :=
  ((PlayList.stored p).songsStatement env 0 0 w.complete).bind fun s =>
    (s.rows w.db).map fun l => l.map Song.dbId

/-- The songs `ids` of `b` are inserted into `a` at the position. -/
structure InsertsPlayList (env : Env) (a b : PlayListFields) (position : Int) (w : World)
    (ids : List Int) (t : Table EntryRow) : Prop where
  songs : ids.Perm ((w.db.entriesOf b.dbId).map fun e => e.2.songId)
  order : ∀ l, b.listed env w = some l → ids = l
  rows : ∃ new, new.map Prod.snd =
      ids.zipIdx.map (fun s => EntryRow.mk (position + s.2) s.1 a.dbId) ∧
    t.rows = w.db.playlistSongs.rows.map
      (fun r => (r.1, raise a.dbId position ids.length r.2)) ++ new
  distinct : Distinct a.dbId w.db.playlistSongs → Distinct a.dbId t
  size : t.count (fun _ e => e.playlistId == a.dbId) =
    (w.db.entriesOf a.dbId).length + (w.db.entriesOf b.dbId).length
  /-- The other playlists keep their entries. -/
  others : t.select (fun _ e => e.playlistId != a.dbId) =
    w.db.playlistSongs.select fun _ e => e.playlistId != a.dbId

/-- The statement that reads the songs of `a` is accepted and gives out no rows. -/
def ReadsNone (env : Env) (a : PlayListFields) (db : Database) : Prop :=
  ∃ order, env.orderEntries (quoteOnly a.orderBy) = some order ∧
    order db (db.entriesOf a.dbId) = some []

/-- The world after room is made for the songs of `b`. -/
def roomFor (a b : PlayListFields) (position : Int) (w : World) : World :=
  w.withEntries (PlayList.shifted a.dbId position (w.db.entriesOf b.dbId).length
    w.db.playlistSongs)

section

variable {env : Env} {a b : PlayListFields} {position : Int} {w : World}

/-- Where room is made, the size was counted before any text was streamed. -/
theorem makeRoom_ok (hs : w.stale = false)
    (h : outcome (PlayList.makeRoom env (.stored a) (.stored b) position) w = .ok ()) :
    env.operandsFirst = true ∧
      after (PlayList.makeRoom env (.stored a) (.stored b) position) w = roomFor a b position w := by
  have hid : Returns (PlayList.stored a).dbId w a.dbId w := ⟨rfl, rfl⟩
  unfold PlayList.makeRoom at h ⊢
  rw [outcome_bind_ok hid.outcome, hid.after] at h
  rw [after_bind_ok hid.outcome, hid.after]
  cases hops : env.operandsFirst with
  | false =>
    simp only [hops, outcome_prepare, or_true, if_true] at h
    cases h
  | true =>
    simp only [hops] at h ⊢
    obtain ⟨n, hn, h⟩ := bind_eq_ok.mp h
    refine ⟨trivial, ?_⟩
    have hsize : n = (w.db.entriesOf b.dbId).length ∧
        after (PlayList.stored b).size w = w := by
      unfold PlayList.size at hn ⊢
      obtain ⟨m, hm, hn⟩ := bind_eq_ok.mp hn
      rw [after_bind_ok hm]
      rw [outcome_execSelect, if_neg (by simp [hs])] at hm
      obtain rfl := Except.ok.inj hm
      have hw : ({ w with stale := false } : World) = w := by
        cases w
        simp_all
      rw [after_execSelect, hw] at hn ⊢
      unfold countUnsigned at hn ⊢
      split at hn
      · rename_i hlt
        rw [if_pos hlt]
        exact ⟨(Except.ok.inj hn).symm, rfl⟩
      · cases hn
    rw [after_bind_ok hn, hsize.1, hsize.2]
    exact (mapEntries_returns hs _).after

/-- What `insert` adds are the songs that the statement on its own entries reads, from the second
position on. -/
theorem insertPlayList_ok {t : Table EntryRow} (hs : w.stale = false)
    (h : Returns ((PlayList.stored a).insertPlayList env (.stored b) position) w ()
      (w.withEntries t)) :
    env.operandsFirst = true ∧ ∃ order rows, env.orderEntries (quoteOnly a.orderBy) = some order ∧
      order (roomFor a b position w).db ((roomFor a b position w).db.entriesOf a.dbId) =
        some rows ∧
      t = ((rows.map fun e => e.2.songId).zipIdx.map fun s =>
        EntryRow.mk (toInt32 (position + s.2 + 1)) s.1 a.dbId).foldl Table.insert
          (roomFor a b position w).db.playlistSongs := by
  have hrun := h.outcome
  have hafter := h.after
  unfold PlayList.insertPlayList at hrun hafter
  obtain ⟨_, hroom, hrun⟩ := bind_eq_ok.mp hrun
  obtain ⟨hops, hworld⟩ := makeRoom_ok hs hroom
  have hid : Returns (PlayList.stored a).dbId (roomFor a b position w) a.dbId
    (roomFor a b position w) := ⟨rfl, rfl⟩
  rw [after_bind_ok hroom, hworld, after_bind_ok hid.outcome, hid.after] at hafter
  rw [hworld, outcome_bind_ok hid.outcome, hid.after] at hrun
  obtain ⟨ids, hids, hrun⟩ := bind_eq_ok.mp hrun
  rw [after_bind_ok hids, PlayList.after_songIds] at hafter
  obtain ⟨order, rows, horder, hrows, rfl⟩ := PlayList.songIds_ok ⟨rfl, rfl⟩ hids
  refine ⟨hops, order, rows, horder, hrows, ?_⟩
  have hw : { roomFor a b position w with stale := false } = roomFor a b position w := by
    cases w
    simp_all [roomFor, World.withEntries]
  have hloop := forM_insertEntry (w := roomFor a b position w) hs a.dbId
    (fun s : Int × Nat => s.1) (fun s => toInt32 (position + s.2 + 1))
    (rows.map fun e => e.2.songId).zipIdx
  rw [hw] at hafter
  exact congrArg (fun v : World => v.db.playlistSongs) (hafter.symm.trans hloop.after)

/-- Room for no songs changes nothing. -/
theorem roomFor_none (h : w.db.entriesOf b.dbId = []) : roomFor a b position w = w := by
  have hshift : PlayList.shifted a.dbId position ((0 : Nat) : Int) w.db.playlistSongs =
      w.db.playlistSongs := by
    refine Table.updateWhere_eq_self fun r _ _ => ?_
    simp
  rw [roomFor, h, List.length_nil, hshift]
  rfl

/-- Nothing but an empty playlist is inserted as it should be: the first song would be at the second
position. -/
theorem InsertsPlayList.empty {ids : List Int} {t : Table EntryRow} (hs : w.stale = false)
    (h : Returns ((PlayList.stored a).insertPlayList env (.stored b) position) w ()
      (w.withEntries t))
    (hins : InsertsPlayList env a b position w ids t) :
    env.operandsFirst = true ∧ w.db.entriesOf b.dbId = [] ∧ ReadsNone env a w.db := by
  obtain ⟨hops, order, rows, horder, hrows, ht⟩ := insertPlayList_ok hs h
  obtain ⟨new, hnew, hshape⟩ := hins.rows
  obtain ⟨added, hadded, hgrown⟩ := rows_insertAll (roomFor a b position w).db.playlistSongs
    ((rows.map fun e => e.2.songId).zipIdx.map fun s =>
      EntryRow.mk (toInt32 (position + s.2 + 1)) s.1 a.dbId)
  have hroom : (roomFor a b position w).db.playlistSongs.rows = w.db.playlistSongs.rows.map
      fun r => (r.1, raise a.dbId position (w.db.entriesOf b.dbId).length r.2) :=
    rows_shifted _ _ _ _
  rw [← ht, hshape, hroom] at hgrown
  have hsame : new = added := (List.append_inj hgrown (by simp)).2
  rw [hsame, hadded] at hnew
  -- Were there a first song, it would be at the position and at the next one.
  have hids : ids = [] ∧ rows = [] := by
    cases ids with
    | nil =>
      refine ⟨rfl, ?_⟩
      simpa using hnew
    | cons x ids =>
      cases rows with
      | nil => simp at hnew
      | cons e rows =>
        simp only [List.map_cons, List.zipIdx_cons, List.cons.injEq, EntryRow.mk.injEq] at hnew
        have hpos := hnew.1.1
        simp only [toInt32] at hpos
        omega
  obtain ⟨rfl, rfl⟩ := hids
  have hnone : w.db.entriesOf b.dbId = [] := by
    simpa using hins.songs
  rw [roomFor_none hnone] at hrows
  exact ⟨hops, hnone, order, horder, hrows⟩

/-- Where there are no songs to insert and none are read, nothing is done. -/
theorem insertPlayList_none (hs : w.stale = false) (hops : env.operandsFirst = true)
    (hb : w.db.entriesOf b.dbId = []) (ha : ReadsNone env a w.db) :
    Returns ((PlayList.stored a).insertPlayList env (.stored b) position) w ()
      (w.withEntries w.db.playlistSongs) := by
  have hid : Returns (PlayList.stored a).dbId w a.dbId w := ⟨rfl, rfl⟩
  have hw : ({ w with stale := false } : World) = w := by
    cases w
    simp_all
  have hsize : Returns (PlayList.stored b).size w 0 w := by
    have hcount : Returns (execSelect true fun db => (db.entriesOf b.dbId).length) w 0 w := by
      refine ⟨?_, ?_⟩
      · rw [outcome_execSelect, if_neg (by simp [hs]), hb]
        rfl
      · rw [after_execSelect, hw]
    exact hcount.bind ⟨rfl, rfl⟩
  have hroom : Returns (PlayList.makeRoom env (.stored a) (.stored b) position) w () w := by
    refine hid.bind ?_
    simp only [hops]
    refine hsize.bind ?_
    have hupdate := mapEntries_returns hs (PlayList.shifted a.dbId position ((0 : Nat) : Int))
    have hnone : roomFor a b position w = w := roomFor_none hb
    rw [roomFor, hb, List.length_nil] at hnone
    rwa [hnone] at hupdate
  obtain ⟨order, horder, hrows⟩ := ha
  have hread : Returns ((PlayList.stored a).songIds env) w [] w := by
    refine ⟨?_, by rw [PlayList.after_songIds, hw]⟩
    have hfields : Returns (PlayList.stored a).fields w a w := ⟨rfl, rfl⟩
    unfold PlayList.songIds
    rw [outcome_bind_ok hfields.outcome, hfields.after, horder]
    have hprep : Returns (prepare true) w () w := by
      refine ⟨?_, by rw [after_prepare, hw]⟩
      rw [outcome_prepare, if_neg (by simp [hs])]
    dsimp only [Option.isSome_some]
    rw [outcome_bind_ok hprep.outcome, hprep.after, outcome_bind_ok (outcome_get w), after_get]
    simp only [Option.bind_some, hrows]
    rfl
  exact hroom.bind (hid.bind (hread.bind ⟨rfl, rfl⟩))

/-- Inserting the songs of one playlist into another works out if and only if the size of the other
is counted before any text is streamed, the other is empty, and so is what is read. -/
theorem insertPlayList_iff (hsql : env.ListsJoined) (hs : w.stale = false) :
    (∃ ids t, Returns ((PlayList.stored a).insertPlayList env (.stored b) position) w ()
        (w.withEntries t) ∧ InsertsPlayList env a b position w ids t) ↔
      env.operandsFirst = true ∧ w.db.entriesOf b.dbId = [] ∧ ReadsNone env a w.db := by
  constructor
  · rintro ⟨ids, t, hret, hins⟩
    exact hins.empty hs hret
  · rintro ⟨hops, hb, ha⟩
    refine ⟨[], _, insertPlayList_none hs hops hb ha, ?_⟩
    have hjoined : w.db.joinedOf b.dbId = [] := by
      simp [Database.joinedOf, hb]
    refine ⟨by rw [hb]; rfl, ?_, ⟨[], rfl, ?_⟩, id, by rw [hb]; rfl, rfl⟩
    · intro l hl
      unfold PlayListFields.listed at hl
      obtain ⟨s, hstat, hl⟩ := Option.bind_eq_some_iff.mp hl
      obtain ⟨order, horder, rfl⟩ := Option.map_eq_some_iff.mp hstat
      obtain ⟨songs, hsongs, rfl⟩ := Option.map_eq_some_iff.mp hl
      obtain ⟨rows, hrows, rfl⟩ := Option.map_eq_some_iff.mp hsongs
      have hnone : rows = [] := by
        refine List.eq_nil_iff_forall_not_mem.mpr fun r hr => ?_
        have := hsql _ _ horder _ _ _ hrows r hr
        rw [hjoined] at this
        cases this
      rw [hnone]
      rfl
    · rw [List.append_nil]
      refine ((List.map_congr_left fun r _ => ?_).trans (List.map_id _)).symm
      unfold raise
      split <;> simp

end

/-! ## Surroundings -/

/-- `Env.sorting` with the operands of `<<` evaluated first. -/
def Env.evaluating : Env where
  __ := Env.sorting
  operandsFirst := true

theorem Env.evaluating_listsJoined : Env.evaluating.ListsJoined := by
  intro text order h db rows sorted hsorted r hr
  simp only [Env.evaluating, Env.sorting] at h
  split at h
  · obtain rfl := Option.some.inj h
    obtain rfl := Option.some.inj hsorted
    exact List.mem_mergeSort.mp hr
  · obtain ⟨c, -, rfl⟩ := Option.map_eq_some_iff.mp h
    obtain rfl := Option.some.inj hsorted
    exact (sortUpper_perm _ _ _).mem_iff.mp hr

omit [Affinity] in
/-- An empty playlist in an empty playlist. -/
theorem insertPlayList_empty : ∃ _ : Affinity,
    let a : PlayListFields := ⟨2, lit "a", [], lit "present_order desc", 0⟩
    let b : PlayListFields := ⟨3, lit "b", [], lit "present_order desc", 1⟩
    let w := World.start .empty
    ∃ ids t, Returns ((PlayList.stored a).insertPlayList .evaluating (.stored b) 1) w ()
      (w.withEntries t) ∧ InsertsPlayList .evaluating a b 1 w ids t := by
  let _ := integerAffinity
  exact ⟨integerAffinity, (insertPlayList_iff Env.evaluating_listsJoined rfl).mpr
    ⟨rfl, rfl, _, rfl, congrArg some List.mergeSort_nil⟩⟩

omit [Affinity] in
/-- A playlist with the song 1 gets no song of the playlist with the song 2. -/
theorem insertPlayList_own : ∃ _ : Affinity,
    let a : PlayListFields := ⟨2, lit "a", [], lit "present_order desc", 0⟩
    let b : PlayListFields := ⟨3, lit "b", [], lit "present_order desc", 1⟩
    let w := World.start { Database.empty with
      playlistSongs := (Table.single 1 ⟨1, 1, 2⟩).insert ⟨1, 2, 3⟩ }
    ¬∃ ids t, Returns ((PlayList.stored a).insertPlayList .evaluating (.stored b) 1) w ()
      (w.withEntries t) ∧ InsertsPlayList .evaluating a b 1 w ids t := by
  let _ := integerAffinity
  refine ⟨integerAffinity, ?_⟩
  intro a b w
  rintro ⟨ids, t, hret, hins⟩
  obtain ⟨-, hb, -⟩ := hins.empty rfl hret
  exact absurd hb (by decide +kernel)

end Spinny

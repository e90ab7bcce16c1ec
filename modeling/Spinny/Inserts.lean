import Spinny.PlayList

/-!
# Inserting songs into a playlist

`PlayList::insert( Song::result_set, int )` raises the entries at and after the position by the
number of songs and then adds the songs one after the other; it runs the result set once for the
number and once for the songs. `insert( Song::ptr, int )` does the same for one song.

* `InsertsAt`: what the entries are after an insertion.
* `insertions_insert`: every insertion of a sequence does that.
-/

namespace Spinny

open Bytes Sqlite Proc

/-! ## The entries -/

/-- No two entries of the playlist have one `present_order`. -/
def Distinct (id : Int) (t : Table EntryRow) : Prop :=
  ∀ r ∈ t.rows, ∀ s ∈ t.rows, r.2.playlistId = id → s.2.playlistId = id →
    r.2.presentOrder = s.2.presentOrder → r = s

/-- The entry after `size` songs were inserted into the playlist at the position. -/
def raise (id position size : Int) (e : EntryRow) : EntryRow :=
  if position ≤ e.presentOrder ∧ e.playlistId = id then
    { e with presentOrder := e.presentOrder + size }
  else e

/-- The songs `songIds` are inserted into the playlist `id` at `position`. -/
structure InsertsAt (id position : Int) (songIds : List Int) (t t' : Table EntryRow) : Prop where
  /-- Every entry is where it was or raised, and the songs follow in their order. -/
  rows : ∃ new, new.map Prod.snd =
      songIds.zipIdx.map (fun s => EntryRow.mk (position + s.2) s.1 id) ∧
    t'.rows = t.rows.map (fun r => (r.1, raise id position songIds.length r.2)) ++ new
  distinct : Distinct id t'
  /-- The old entries of the playlist stay in their order. -/
  order : ∀ r ∈ t.rows, ∀ s ∈ t.rows, r.2.playlistId = id → s.2.playlistId = id →
    ((raise id position songIds.length r.2).presentOrder <
        (raise id position songIds.length s.2).presentOrder ↔
      r.2.presentOrder < s.2.presentOrder)
  /-- The other playlists keep their entries. -/
  others : t'.select (fun _ e => e.playlistId != id) = t.select fun _ e => e.playlistId != id

section

variable (id position size : Int) (e : EntryRow)

theorem raise_below (h : e.presentOrder < position) : raise id position size e = e :=
  if_neg fun hc => by omega

theorem raise_other (h : e.playlistId ≠ id) : raise id position size e = e :=
  if_neg fun hc => h hc.2

theorem raise_presentOrder (h : e.playlistId = id) :
    (raise id position size e).presentOrder =
      if position ≤ e.presentOrder then e.presentOrder + size else e.presentOrder := by
  unfold raise
  by_cases hp : position ≤ e.presentOrder
  · rw [if_pos ⟨hp, h⟩, if_pos hp]
  · rw [if_neg fun hc => hp hc.1, if_neg hp]

@[simp] theorem raise_playlistId : (raise id position size e).playlistId = e.playlistId := by
  unfold raise
  split <;> rfl

@[simp] theorem raise_songId : (raise id position size e).songId = e.songId := by
  unfold raise
  split <;> rfl

end

theorem raise_lt_iff {id position : Int} {n : Nat} {a b : EntryRow} (ha : a.playlistId = id)
    (hb : b.playlistId = id) :
    ((raise id position n a).presentOrder < (raise id position n b).presentOrder ↔
      a.presentOrder < b.presentOrder) := by
  rw [raise_presentOrder _ _ _ _ ha, raise_presentOrder _ _ _ _ hb]
  split <;> split <;> omega

/-- The rows of a table after rows are inserted one after the other. -/
theorem rows_insertAll (t : Table EntryRow) (l : List EntryRow) :
    ∃ new, new.map Prod.snd = l ∧ (l.foldl Table.insert t).rows = t.rows ++ new := by
  induction l generalizing t with
  | nil => exact ⟨[], rfl, by simp⟩
  | cons e l ih =>
    obtain ⟨new, hnew, hrows⟩ := ih (t.insert e)
    exact ⟨(t.nextId, e) :: new, by simp [hnew], by simp [hrows]⟩

theorem rows_shifted (id position : Int) (size : Int) (t : Table EntryRow) :
    (PlayList.shifted id position size t).rows =
      t.rows.map fun r => (r.1, raise id position size r.2) := by
  refine List.map_congr_left fun r _ => ?_
  simp only [raise, Bool.and_eq_true, decide_eq_true_eq, beq_iff_eq]
  split <;> rfl

/-- The table after an insertion. -/
def inserted (id position : Int) (songIds : List Int) (t : Table EntryRow) : Table EntryRow :=
  (songIds.zipIdx.map fun s => EntryRow.mk (position + s.2) s.1 id).foldl Table.insert
    (PlayList.shifted id position songIds.length t)

theorem inserted_insertsAt {id position : Int} {t : Table EntryRow} (h : Distinct id t)
    (songIds : List Int) :
    InsertsAt id position songIds t (inserted id position songIds t) := by
  obtain ⟨new, hnew, hrows⟩ := rows_insertAll (PlayList.shifted id position songIds.length t)
    (songIds.zipIdx.map fun s => EntryRow.mk (position + s.2) s.1 id)
  rw [rows_shifted] at hrows
  change (inserted id position songIds t).rows = _ at hrows
  have hmem : ∀ r ∈ new, ∃ i, i < songIds.length ∧ r.2.presentOrder = position + i ∧
      r.2.playlistId = id := by
    intro r hr
    have : r.2 ∈ new.map Prod.snd := List.mem_map_of_mem hr
    rw [hnew] at this
    obtain ⟨s, hs, hs'⟩ := List.mem_map.mp this
    have hlt := List.snd_lt_of_mem_zipIdx hs
    exact ⟨s.2, by simpa using hlt, by rw [← hs'], by rw [← hs']⟩
  refine ⟨⟨new, hnew, hrows⟩, ?_, fun r _ s _ hr hs => raise_lt_iff hr hs, ?_⟩
  · have hold : ∀ r ∈ t.rows, r.2.playlistId = id →
        (raise id position songIds.length r.2).presentOrder < position ∨
          position + songIds.length ≤ (raise id position songIds.length r.2).presentOrder := by
      intro r _ hid
      rw [raise_presentOrder _ _ _ _ hid]
      split <;> omega
    intro r hr s hs hrid hsid heq
    rw [hrows, List.mem_append, List.mem_map] at hr hs
    rcases hr with ⟨r, hr, rfl⟩ | hr <;> rcases hs with ⟨s, hs, rfl⟩ | hs
    · dsimp only at hrid hsid heq
      rw [raise_playlistId] at hrid hsid
      have hlt := @raise_lt_iff _ position songIds.length _ _ hrid hsid
      have hgt := @raise_lt_iff _ position songIds.length _ _ hsid hrid
      rw [h r hr s hs hrid hsid (by omega)]
    · dsimp only at hrid heq
      rw [raise_playlistId] at hrid
      obtain ⟨i, hi, hpos, -⟩ := hmem s hs
      have := hold r hr hrid
      omega
    · dsimp only at hsid heq
      rw [raise_playlistId] at hsid
      obtain ⟨i, hi, hpos, -⟩ := hmem r hr
      have := hold s hs hsid
      omega
    · refine List.inj_on_of_nodup_map (f := fun r => r.2.presentOrder) ?_ hr hs heq
      have hmap : new.map (fun r => r.2.presentOrder) =
          (songIds.zipIdx.map Prod.snd).map fun i : Nat => position + i := by
        rw [show (fun r : Int × EntryRow => r.2.presentOrder) =
          EntryRow.presentOrder ∘ Prod.snd from rfl, ← List.map_map, hnew, List.map_map,
          List.map_map]
        rfl
      rw [hmap]
      refine List.Nodup.map (fun a b hab => ?_) (List.nodup_zipIdx_map_snd _)
      simpa using hab
  · have hnone : new.filter (fun r => r.2.playlistId != id) = [] := by
      refine List.filter_eq_nil_iff.mpr fun r hr => ?_
      obtain ⟨i, -, -, hid⟩ := hmem r hr
      simp [hid]
    have hfilter : ((fun r : Int × EntryRow => r.2.playlistId != id) ∘
        fun r : Int × EntryRow => (r.1, raise id position songIds.length r.2)) =
        fun r => r.2.playlistId != id := by
      funext r
      simp
    simp only [Table.select, hrows, List.filter_append, hnone, List.append_nil, List.filter_map,
      hfilter]
    refine (List.map_congr_left fun r hr => ?_).trans (List.map_id _)
    have hne := (List.mem_filter.mp hr).2
    rw [raise_other _ _ _ _ (by simpa using hne)]
    rfl

variable [Affinity]

/-! ## The source -/

/-- `PlayList::insert( Song::result_set, int )` on the result set itself. -/
def PlayList.insertResults (pl : PlayList) (songs : ResultSet Song) (position : Int) :
    Act Unit := do
  let id ← pl.dbId
  let size := (← songs.begin).length
  execUpdate true <| .mapEntries (shifted id position size)
  (← songs.begin).zipIdx.forM fun s => insertEntry id s.1.dbId (toInt32 (position + s.2))

/-- A call of `insert`. -/
inductive Insertion where
  | results (songs : ResultSet Song) (position : Int)
  | song (song : Song) (position : Int)

namespace Insertion

/-- What a call runs. -/
def run (pl : PlayList) : Insertion → Act Unit
  | results songs position => pl.insertResults songs position
  | song s position => pl.insertSong s position

def position : Insertion → Int
  | results _ position => position
  | song _ position => position

/-- The songs that a call inserts. -/
def songIds (db : Database) : Insertion → List Int
  | results songs _ => ((songs.rows db).getD []).map Song.dbId
  | song s _ => [s.dbId]

/-- The result set comes to rows, and not from the entries of playlists; the positions are of the
type `int`. -/
structure Fits (i : Insertion) (db : Database) : Prop where
  rows : ∀ songs position, i = results songs position →
    ∃ l, ∀ entries, songs.rows { db with playlistSongs := entries } = some l
  lower : -2 ^ 31 ≤ i.position
  upper : i.position + (i.songIds db).length ≤ 2 ^ 31

end Insertion

/-! ## What a call comes to -/

/-- The world with other entries. -/
def World.withEntries (w : World) (t : Table EntryRow) : World :=
  { w with db := { w.db with playlistSongs := t } }

theorem mapEntries_returns {w : World} (hs : w.stale = false)
    (f : Table EntryRow → Table EntryRow) :
    Returns (execUpdate true (.mapEntries f)) w () (w.withEntries (f w.db.playlistSongs)) where
  outcome := by
    rw [outcome_execUpdate, if_neg (by simp [hs])]
  after := by
    rw [after_execUpdate, if_neg (by simp [hs])]
    cases w
    simp_all [World.withEntries, Database.mapEntries]

/-- Entries are added one after the other. -/
theorem forM_insertEntry {β : Type} {w : World} (hs : w.stale = false) (id : Int)
    (songId position : β → Int) (l : List β) :
    Returns (l.forM fun s => PlayList.insertEntry id (songId s) (position s)) w ()
      (w.withEntries ((l.map fun s => EntryRow.mk (position s) (songId s) id).foldl
        Table.insert w.db.playlistSongs)) := by
  induction l generalizing w with
  | nil => exact ⟨rfl, rfl⟩
  | cons s l ih =>
    rw [forM_cons]
    exact (mapEntries_returns hs _).bind (ih (w := w.withEntries _) hs)

/-- The songs are added one after the other. -/
theorem insertEntries_returns {w : World} (hs : w.stale = false) (id position : Int)
    (songs : List (Song × Nat))
    (hfit : ∀ s ∈ songs, toInt32 (position + s.2) = position + s.2) :
    Returns (songs.forM fun s => PlayList.insertEntry id s.1.dbId (toInt32 (position + s.2))) w ()
      (w.withEntries ((songs.map fun s => EntryRow.mk (position + s.2) s.1.dbId id).foldl
        Table.insert w.db.playlistSongs)) := by
  have hloop := forM_insertEntry hs id (fun s : Song × Nat => s.1.dbId)
    (fun s => toInt32 (position + s.2)) songs
  rwa [List.map_congr_left fun s hs => by rw [hfit s hs]] at hloop

namespace Insertion

variable {p : PlayListFields} {w : World} {i : Insertion}

/-- A call of `insert` returns and changes the entries only. -/
theorem run_returns (hs : w.stale = false) (hi : i.Fits w.db) :
    Returns (i.run (.stored p)) w () (w.withEntries
      (inserted p.dbId i.position (i.songIds w.db) w.db.playlistSongs)) := by
  have hdbId : Returns (PlayList.stored p).dbId w p.dbId w := ⟨rfl, rfl⟩
  cases i with
  | song s position =>
    have hpos : toInt32 position = position :=
      toInt32_of_small (by simpa [Insertion.position] using hi.lower) (by
        have := hi.upper
        simp [Insertion.position, songIds] at this
        omega)
    refine hdbId.bind ((mapEntries_returns hs _).bind ?_)
    have h := mapEntries_returns (w := w.withEntries (PlayList.shifted p.dbId position 1
      w.db.playlistSongs)) hs fun t => t.insert ⟨position, s.dbId, p.dbId⟩
    have heq : inserted p.dbId position [s.dbId] w.db.playlistSongs =
        (PlayList.shifted p.dbId position 1 w.db.playlistSongs).insert
          ⟨position, s.dbId, p.dbId⟩ := by
      simp [inserted]
    simp only [Insertion.position, songIds, heq]
    exact h
  | results songs position =>
    obtain ⟨l, hl⟩ := hi.rows songs position rfl
    have hbegin : ∀ t, Returns songs.begin (w.withEntries t) l (w.withEntries t) := by
      intro t
      refine ⟨?_, after_begin _ _⟩
      rw [outcome_begin]
      simp only [World.withEntries, hl]
    have hids : (results songs position).songIds w.db = l.map Song.dbId := by
      rw [songIds, show songs.rows w.db = some l from hl w.db.playlistSongs]
      rfl
    have hupper := hi.upper
    rw [hids, List.length_map] at hupper
    have hfit : ∀ s ∈ l.zipIdx, toInt32 (position + s.2) = position + s.2 := by
      intro s hs
      have hlt := List.snd_lt_of_mem_zipIdx hs
      have hlower := hi.lower
      simp only [Insertion.position] at hlower hupper
      exact toInt32_of_small (by omega) (by omega)
    have hloop := insertEntries_returns (w := w.withEntries
      (PlayList.shifted p.dbId position l.length w.db.playlistSongs)) hs p.dbId position
      l.zipIdx hfit
    rw [hids, inserted, List.length_map, List.zipIdx_map, List.map_map]
    exact hdbId.bind ((hbegin w.db.playlistSongs).bind ((mapEntries_returns hs _).bind
      ((hbegin _).bind hloop)))

/-- Which songs a call inserts does not depend on the entries. -/
theorem Fits.withEntries (hi : i.Fits w.db) (t : Table EntryRow) :
    i.Fits (w.withEntries t).db ∧ i.songIds (w.withEntries t).db = i.songIds w.db := by
  have hids : i.songIds (w.withEntries t).db = i.songIds w.db := by
    cases i with
    | song s position => rfl
    | results songs position =>
      obtain ⟨l, hl⟩ := hi.rows songs position rfl
      rw [songIds, songIds, show songs.rows w.db = some l from hl w.db.playlistSongs,
        show songs.rows (w.withEntries t).db = some l from hl t]
  exact ⟨⟨hi.rows, hi.lower, hids ▸ hi.upper⟩, hids⟩

/-- A sequence of calls returns with the entries of the playlist at different places. -/
theorem forM_returns {insertions : List Insertion} (hs : w.stale = false)
    (hd : Distinct p.dbId w.db.playlistSongs) (hfit : ∀ i ∈ insertions, i.Fits w.db) :
    ∃ t, Distinct p.dbId t ∧
      Returns (insertions.forM (run (.stored p))) w () (w.withEntries t) := by
  induction insertions generalizing w with
  | nil => exact ⟨_, hd, rfl, rfl⟩
  | cons i rest ih =>
    have hi := hfit i (by simp)
    have hins := @inserted_insertsAt _ i.position _ hd (i.songIds w.db)
    obtain ⟨t, ht, hret⟩ := ih (w := w.withEntries (inserted p.dbId i.position (i.songIds w.db)
      w.db.playlistSongs)) hs hins.distinct fun j hj =>
        ((hfit j (by simp [hj])).withEntries _).1
    exact ⟨t, ht, (run_returns hs hi).bind hret⟩

end Insertion

/-- However many calls of `insert` follow one another on a playlist whose entries are at different
places, each of them puts its songs at its position. -/
theorem insertions_insert {p : PlayListFields} {w : World} {insertions : List Insertion}
    (hs : w.stale = false) (hd : Distinct p.dbId w.db.playlistSongs)
    (hfit : ∀ i ∈ insertions, i.Fits w.db) :
    (∃ t, Returns (insertions.forM (Insertion.run (.stored p))) w () (w.withEntries t)) ∧
      ∀ done i rest, insertions = done ++ i :: rest → ∃ t t',
        Returns (done.forM (Insertion.run (.stored p))) w () (w.withEntries t) ∧
          Returns (i.run (.stored p)) (w.withEntries t) () (w.withEntries t') ∧
            InsertsAt p.dbId i.position (i.songIds w.db) t t' := by
  obtain ⟨t, -, hret⟩ := Insertion.forM_returns hs hd hfit
  refine ⟨⟨t, hret⟩, ?_⟩
  rintro done i rest rfl
  have hdoneFit : ∀ j ∈ done, j.Fits w.db := fun j hj => hfit j (by simp [hj])
  obtain ⟨t, ht, hdone⟩ := Insertion.forM_returns hs hd hdoneFit
  obtain ⟨hi, hids⟩ := (hfit i (by simp)).withEntries t
  have hrun := Insertion.run_returns (p := p) (w := w.withEntries t) hs hi
  rw [hids] at hrun
  exact ⟨t, _, hdone, hrun, inserted_insertsAt ht _⟩

/-- Two songs put before the one entry of a playlist, and one of them once more between them. -/
def twoInsertions : List Insertion :=
  let a := Song.ofRow 1 ⟨1, 1, 1, .empty, .empty, 0, 0, 0, 0⟩
  let b := Song.ofRow 2 ⟨1, 1, 1, .empty, .empty, 0, 0, 0, 0⟩
  [.results ⟨fun _ => some [a, b]⟩ 1, .song a 2]

omit [Affinity] in
theorem twoInsertions_insert : ∃ _ : Affinity,
    let w := World.start { Database.empty with playlistSongs := .single 1 ⟨1, 1, 1⟩ }
    ∃ t, Returns (twoInsertions.forM (Insertion.run (.stored ⟨1, [], [], [], 0⟩))) w ()
      (w.withEntries t) := by
  let _ := integerAffinity
  refine ⟨integerAffinity, (insertions_insert (w := .start { Database.empty with
    playlistSongs := .single 1 ⟨1, 1, 1⟩ }) rfl ?_ ?_).1⟩
  · intro r hr s hs _ _ _
    exact (List.mem_singleton.mp hr).trans (List.mem_singleton.mp hs).symm
  · intro i hi
    rcases List.mem_pair.mp hi with rfl | rfl
    · exact ⟨fun songs position h => by cases h; exact ⟨_, fun _ => rfl⟩, by decide, by decide⟩
    · exact ⟨fun songs position h => (by cases h), by decide, by decide⟩

end Spinny

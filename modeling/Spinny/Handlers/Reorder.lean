import Spinny.Frame
import Spinny.Handlers.Pl
import Spinny.Orderings

/-!
# Reordering the songs of a playlist

`/pl/songs/reorder` writes the positions one by one and then stores the ordering
`upper(playlist_songs) desc`. `playlist_songs` is a table and no column, so SQLite refuses the
next listing of the playlist.

* `reorder_ok`: what an answered request leaves as the ordering.
* `reorder_never_lists`: after it no listing succeeds, whatever the positions.
-/

namespace Handlers

open Bytes Boost Spinny Sqlite Ews Proc

variable [Affinity]

/-- The songs that a playlist holds. -/
def songIdsOf (db : Database) (id : Int) : List Int :=
  if id = 1 then db.songs.rows.map (·.1) else (db.entriesOf id).map fun e => e.2.songId

/-- The request gives the songs of a saved playlist, which are pairwise different, the positions
from 1 on in the order of `songs`. -/
structure Reordering (req : Request) (id : Int) (songs : List Int) (w : World) : Prop where
  path : req.u1 = lit "pl" ∧ req.u2 = lit "songs" ∧ req.u3 = lit "reorder"
  playList : req.singleValue toId 0 (lit "pl_id") = some id
  saved : id ≠ 0 ∧ (w.db.playlists.lookup id).isSome = true
  different : (songIdsOf w.db id).Nodup
  permutation : songs.Perm (songIdsOf w.db id)
  positions : (PL.digitVars req).Perm
    (songs.zipIdx.map fun s => (showInt s.1, showInt ((s.2 : Int) + 1)))

/-- `PlayList::load( id )->songs()`, read to the end. -/
def listing (env : Env) (id : Int) : Act (List Spinny.Song) := do
  let pl ← PlayList.load id
  let songs ← pl.songs env 0 0
  songs.begin

/-- The ordering that the playlist has. -/
def orderText (w : World) (id : Int) : Bytes :=
  if id = 1 then w.complete.order
  else
    match w.db.playlists.lookup id with
    | some row => row.orderBy.val
    | none => []

/-- The playlist lists the songs in this order, or the other way round if its ordering is
descending. -/
def ListsInOrder (env : Env) (id : Int) (songs : List Int) (w : World) : Prop :=
  ∃ l, outcome (listing env id) w = .ok l ∧
    l.map Spinny.Song.dbId =
      if (lit "desc").isSuffixOf (lower (orderText w id)) then songs.reverse else songs

/-- The request is answered, and the playlist lists the songs as asked for, then and after it is
loaded again. -/
structure ListsReordered (env : Env) (req : Request) (id : Int) (songs : List Int) (w : World) :
    Prop where
  answered : outcome (PL.handle env req) w = .ok .stop
  listed : ListsInOrder env id songs (after (PL.handle env req) w)
  reloaded : ListsInOrder env id songs (after (listing env id) (after (PL.handle env req) w))

/-! ## What the request writes -/

theorem forDigitVars_keeps {R : World → World → Prop} [Std.Refl R] [IsTrans World R]
    (hR : ∀ w w', Same Spinny.stored w w' → R w w') (req : Request) {f : Int → Int → Act Unit}
    (hf : ∀ id order, Keeps R (f id order)) : Keeps R (PL.forDigitVars req f) :=
  Keeps.forM _ fun _ => ((Queries.cast _).mono hR).bind fun _ =>
    ((Queries.cast _).mono hR).bind fun _ => hf _ _

theorem positions_written (req : Request) (pl : PlayList) :
    WritesEntries (PL.forDigitVars req pl.setSongOrder) :=
  forDigitVars_keeps (fun _ _ h => congrArg (fun s => ({ s.1 with playlistSongs := .empty }, s.2)) h)
    req fun _ _ => (PlayList.setSongOrder_writes _ _ _).writesEntries

/-- The ordering that the request stores. -/
def tableOrder (id : Int) : Bytes :=
  if id = 1 then upperOrder (lit "playlist_songs") (lit "DESC") (lit "ASC") true
  else upperOrder (lit "playlist_songs") (lit "desc") (lit "asc") true

theorem handle_reorder {req : Request} (env : Env)
    (h : req.u1 = lit "pl" ∧ req.u2 = lit "songs" ∧ req.u3 = lit "reorder") :
    PL.handle env req = (do
      let id ← idValue req (lit "pl_id")
      let pl ← PlayList.load id
      PL.forDigitVars req pl.setSongOrder
      let _ ← pl.setOrder (lit "playlist_songs") true
      modifyRep fun rep =>
        (rep.setHeader (lit "X-HANDLED-BY") PL.name).setBasicHeaders (lit "json")
      return .stop) := by
  obtain ⟨h1, h2, h3⟩ := h
  simp only [PL.handle, PL.answer, PL.songs, PL.reorder, h1, h2, h3, ne_eq, not_true_eq_false,
    if_false, if_true, if_neg (show ¬ lit "reorder" = lit "list" by decide), bind_assoc,
    pure_bind]

theorem orderText_stored {w : World} {id : Int} {row : PlayListRow} (hne : id ≠ 1)
    (h : w.db.playlists.lookup id = some row) : orderText w id = row.orderBy.val := by
  rw [orderText, if_neg hne, h]

/-- An answered request has stored an ordering that names the table. -/
theorem reorder_ok {env : Env} {req : Request} {id : Int} {songs : List Int} {w : World}
    (hreq : Reordering req id songs w) (h : outcome (PL.handle env req) w = .ok .stop) :
    orderText (after (PL.handle env req) w) id = tableOrder id := by
  rw [handle_reorder env hreq.path] at h ⊢
  have hid : outcome (idValue req (lit "pl_id")) w = .ok id := by
    simp only [idValue, hreq.playList, cast_some, outcome_pure]
  have hid' : after (idValue req (lit "pl_id")) w = w := by
    simp only [idValue, hreq.playList, cast_some, after_pure]
  rw [outcome_bind_ok hid, hid'] at h
  rw [after_bind_ok hid, hid']
  obtain ⟨pl, hload, h⟩ := bind_eq_ok.mp h
  rw [PlayList.after_load] at h
  rw [after_bind_ok hload, PlayList.after_load]
  obtain ⟨_, hpos, h⟩ := bind_eq_ok.mp h
  have hw := positions_written req pl w
  rw [after_bind_ok hpos]
  generalize after (PL.forDigitVars req pl.setSongOrder) w = w' at h hw ⊢
  obtain ⟨_, hset, -⟩ := bind_eq_ok.mp h
  rw [after_bind_ok hset]
  obtain ⟨hdb, hc⟩ := Prod.mk.inj hw
  rcases PlayList.of_load_ok hload with ⟨rfl, rfl⟩ | ⟨hne, row, hrow, rfl⟩
  · rfl
  · have hrow' : w'.db.playlists.lookup id = some row := by
      rw [← hrow]
      exact congrArg (fun db => db.playlists.lookup id) hdb
    obtain ⟨row', hlook, horder⟩ := PlayList.setOrder_stored (p := .ofRow id row) hreq.saved.1
      hrow' rfl hset
    rw [tableOrder, if_neg hne, ← horder]
    exact orderText_stored hne hlook

/-- A playlist with that ordering cannot be listed. -/
theorem listing_refused {env : Env} (hsql : env.RefusesTables) {id : Int} {w : World}
    (h : orderText w id = tableOrder id) : ∃ e, outcome (listing env id) w = .error e := by
  unfold listing
  rw [outcome_bind]
  cases hload : outcome (PlayList.load id) w with
  | error e => exact ⟨e, rfl⟩
  | ok pl =>
    dsimp only
    rw [PlayList.after_load, outcome_bind, PlayList.outcome_songs]
    have hnone : pl.songsStatement env 0 0 w.complete = none := by
      rcases PlayList.of_load_ok hload with ⟨rfl, rfl⟩ | ⟨hne, row, hrow, rfl⟩
      · have horder : w.complete.order = tableOrder 1 := h
        have hcons : w.complete.order ≠ [] := by
          rw [horder]
          decide
        simp only [PlayList.songsStatement, if_neg hcons]
        rw [horder]
        exact congrArg _ (hsql.complete (lit "playlist_songs") (by decide) true)
      · rw [orderText_stored hne hrow, tableOrder, if_neg hne] at h
        have horder : (PlayListFields.ofRow id row).orderBy = _ := h
        simp only [PlayList.songsStatement, horder]
        exact congrArg _ (hsql.joined (lit "playlist_songs") (by decide) true)
    rw [hnone]
    exact ⟨_, rfl⟩

/-- No request puts the songs of a playlist into a new order: its next listing is refused. -/
theorem reorder_never_lists {env : Env} (hsql : env.RefusesTables) {req : Request} {id : Int}
    {songs : List Int} {w : World} (hreq : Reordering req id songs w) :
    ¬ ListsReordered env req id songs w := by
  intro h
  obtain ⟨e, he⟩ := listing_refused hsql (reorder_ok hreq h.answered)
  obtain ⟨l, hl, -⟩ := h.listed
  rw [he] at hl
  cases hl

/-! ## A playlist of two songs -/

/-- Two songs, both in the playlist 2. -/
def twoSongs : Database :=
  let song (title : Text) : SongRow := ⟨1, 1, 1, title, title, 0, 0, 0, 0⟩
  { Database.empty with
    songs := (Table.empty.insert (song (.ofLiteral (lit "a") nulFree_a))).insert
      (song (.ofLiteral (lit "b") nulFree_b))
    playlists := .single 2
      ⟨.ofLiteral (lit "mine") nulFree_mine, .empty, .ofLiteral (lit "present_order desc") nulFree_newOrder, 0⟩
    playlistSongs := (Table.empty.insert ⟨1, 1, 2⟩).insert ⟨2, 2, 2⟩ }

omit [Affinity] in
/-- The second song first. -/
def secondFirst : Request :=
  .forUrl (lit "/pl/songs/reorder") (Std.ExtTreeMap.ofList
    [(lit "pl_id", [lit "2"]), (lit "2", [lit "1"]), (lit "1", [lit "2"])])

omit [Affinity] in
theorem secondFirst_reordering :
    @Reordering integerAffinity secondFirst 2 [2, 1]
      (@World.start integerAffinity (@twoSongs integerAffinity)) := by
  apply @Reordering.mk integerAffinity <;> decide

omit [Affinity] in
/-- Both songs are in the playlist, the request is answered, and the listing after it raises. -/
theorem reorder_breaks_listing :
    let w := @World.start integerAffinity (@twoSongs integerAffinity)
    let env := @Env.sorting integerAffinity
    @Reordering integerAffinity secondFirst 2 [2, 1] w ∧
      outcome (@PL.handle integerAffinity env secondFirst) w = .ok .stop ∧
      outcome (@listing integerAffinity env 2) (after (@PL.handle integerAffinity env secondFirst) w) =
        .error .databaseError ∧
      ¬ @ListsReordered integerAffinity env secondFirst 2 [2, 1] w := by
  refine ⟨secondFirst_reordering, rfl, rfl, ?_⟩
  rintro ⟨-, ⟨l, hl, -⟩, -⟩
  cases hl

omit [Affinity] in
theorem reorder_never_lists_two :
    ¬ @ListsReordered integerAffinity (@Env.sorting integerAffinity) secondFirst 2 [2, 1]
      (@World.start integerAffinity (@twoSongs integerAffinity)) :=
  @reorder_never_lists integerAffinity _ (@Env.sorting_refusesTables integerAffinity) _ _ _ _
    secondFirst_reordering

end Handlers

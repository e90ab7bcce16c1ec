import Spinny.Frame
import Spinny.Orderings

/-!
# The playlist of all songs

`PlayList::load( 1 )` gives out the `CompletePlayList` instance behind a `PlayList::ptr`. Its class
declares `insert`, `remove`, `clear` and `set_song_order` again as functions that do nothing, but
only `set_order`, `songs` and `size` are virtual: through the pointer the other calls run the
functions of `PlayList`, with the `db_id` of the instance, and `save` gives it one.

* `Call`: the calls through the pointer, `Call.Harmless`: when one of them writes nothing that
  belongs to no row of the instance.
* `harmless_runs_intact`: a run of harmless calls keeps the tables, and the instance goes on
  describing all songs.
* `calls_write`: a run that does not.
-/

namespace Spinny

open Bytes Sqlite Proc

variable [Affinity]

/-- A call through the pointer to the instance. -/
inductive Call where
  | insertSongs (songs : List Song) (position : Int)
  | insertSong (song : Song) (position : Int)
  | insertPlayList (other : PlayList) (position : Int)
  | insertDir (dir : MusicDir) (position : Int)
  | insertArtist (artist : Artist) (position : Int)
  | insertAlbum (album : Album) (position : Int)
  | remove (songId : Int)
  | clear
  | setSongOrder (songId order : Int)
  | setOrder (column : Bytes) (known : column ∈ listColumns) (descending : Bool)
  | setName (name : Bytes)
  | setDescription (description : Bytes)
  | save

namespace Call

/-- What a call runs. -/
def run (env : Env) : Call → Act Unit
  | insertSongs songs position => PlayList.complete.insertSongs songs position
  | insertSong song position => PlayList.complete.insertSong song position
  | insertPlayList other position => PlayList.complete.insertPlayList env other position
  | insertDir dir position => PlayList.complete.insertDir dir position
  | insertArtist artist position => PlayList.complete.insertArtist artist position
  | insertAlbum album position => PlayList.complete.insertAlbum album position
  | remove songId => PlayList.complete.remove songId
  | clear => PlayList.complete.clear
  | setSongOrder songId order => PlayList.complete.setSongOrder songId order
  | setOrder column _ descending => do
    let _ ← PlayList.complete.setOrder column descending
  | setName name => do
    let _ ← PlayList.complete.setName name
  | setDescription description => do
    let _ ← PlayList.complete.setDescription description
  | save => PlayList.complete.save

/-- The call inserts, moves and deletes no entry of the row that the instance has, and makes no
such row. -/
def Harmless (env : Env) (w : World) : Call → Prop
  | insertSongs songs _ => songs = []
  | insertSong _ _ => False
  | insertPlayList other _ =>
    (match other with
      | .stored _ => env.operandsFirst = false
      | .complete => False) ∨ w.db.entriesOf w.complete.dbId = []
  | insertDir dir _ => w.db.songs.select (fun _ s => s.dirId == dir.dbId) = []
  | insertArtist artist _ => w.db.songs.select (fun _ s => s.artistId == artist.dbId) = []
  | insertAlbum album _ => w.db.songs.select (fun _ s => s.albumId == album.dbId) = []
  | remove songId => ∀ e ∈ w.db.entriesOf w.complete.dbId, e.2.songId ≠ songId
  | clear => w.db.entriesOf w.complete.dbId = []
  | setSongOrder songId order =>
    ∀ e ∈ w.db.entriesOf w.complete.dbId, e.2.songId = songId → e.2.presentOrder = order
  | save => w.complete.dbId ≠ 0
  | setOrder .. | setName _ | setDescription _ => True

end Call

/-- The worlds that a run of calls goes through; a call that throws ends there. -/
def states (env : Env) (w : World) : List Call → List World
  | [] => [w]
  | c :: cs => w :: states env (after (c.run env) w) cs

/-- Every call of the run is harmless where it is made. -/
def AllHarmless (env : Env) (w : World) : List Call → Prop
  | [] => True
  | c :: cs => c.Harmless env w ∧ AllHarmless env (after (c.run env) w) cs

/-- `songs()` of the instance, read to the end. -/
def allSongs (env : Env) : Act (List Song) := do
  let songs ← PlayList.complete.songs env 0 0
  songs.begin

/-- The entries are those of `before`, the playlists have the rowids they had, and the instance
describes all songs. -/
structure Intact (env : Env) (before : Database) (w : World) : Prop where
  entries : w.db.playlistSongs = before.playlistSongs
  playLists : w.db.playlists.rows.map (·.1) = before.playlists.rows.map (·.1)
  songs : ∃ l, outcome (allSongs env) w = .ok l ∧
    l.Perm (before.songs.rows.map fun r => Song.ofNamedRow w.db r.1 r.2)
  size : outcome PlayList.complete.size w = outcome (countUnsigned before.songs.rows.length) w

/-- The instance has the ordering it begins with or that of a column of the song list. -/
def OrderKnown (c : CompletePlayList) : Prop :=
  c.order = [] ∨ ∃ column ∈ listColumns, ∃ descending,
    c.order = upperOrder (quoteOnly column) (lit "DESC") (lit "ASC") descending

/-- What a harmless call preserves. -/
structure Steady (before : Database) (w : World) : Prop where
  clean : w.stale = false
  order : OrderKnown w.complete
  entries : w.db.playlistSongs = before.playlistSongs
  playLists : w.db.playlists.rows.map (·.1) = before.playlists.rows.map (·.1)
  songs : w.db.songs = before.songs

omit [Affinity] in
theorem quoteOnly_column {c : Bytes} (h : c ∈ listColumns) : quoteOnly c = c := by
  revert c
  decide +kernel

/-- The statement of `songs()` is accepted and gives out all rows. -/
theorem Steady.intact {env : Env} (hsql : env.SortsColumns) {before : Database} {w : World}
    (h : Steady before w) : Intact env before w where
  entries := h.entries
  playLists := h.playLists
  songs := by
    obtain ⟨order, horder, hperm⟩ : ∃ order,
        env.orderComplete (if w.complete.order = [] then lit "songs.title" else w.complete.order) =
          some order ∧ Permutes order := by
      rcases h.order with hnil | ⟨c, hc, descending, horder⟩
      · rw [if_pos hnil]
        exact hsql.byTitle
      · rw [horder, if_neg (by simp [upperOrder, lit]), quoteOnly_column hc]
        exact hsql.byColumn c hc descending
    obtain ⟨sorted, hsorted, hp⟩ := hperm w.db w.db.songs.rows
    refine ⟨sorted.map fun r => Song.ofNamedRow w.db r.1 r.2, ?_, h.songs ▸ hp.map _⟩
    unfold allSongs
    have hst : PlayList.complete.songsStatement env 0 0 w.complete =
        some ⟨fun db => (order db db.songs.rows).map fun rows =>
          rows.map fun r => Song.ofNamedRow db r.1 r.2⟩ := by
      simp only [PlayList.songsStatement, PlayList.limitText, if_true, List.append_nil, horder,
        Option.map_some]
    rw [outcome_bind, PlayList.outcome_songs, PlayList.after_songs, hst]
    simp [h.clean, hsorted]
  size := by
    change outcome (execText _ >>= _) w = _
    rw [outcome_bind_ok (outcome_execText _ w), after_execText, h.songs]

/-! ## Calls that change nothing -/

/-- The procedure leaves the world as it is. -/
abbrev Stays {α : Type} (x : Act α) (w : World) : Prop := after x w = w

theorem Stays.bind {α β : Type} {x : Act α} {f : α → Act β} {w : World} (hx : Stays x w)
    (hf : ∀ a, outcome x w = .ok a → Stays (f a) w) : Stays (x >>= f) w := by
  cases h : outcome x w with
  | ok a =>
    rw [Stays, after_bind_ok h, hx]
    exact hf a h
  | error e => rw [Stays, after_bind_error h, hx]

section

variable {env : Env} {w : World} (hclean : w.stale = false)

include hclean

theorem clean_eq : ({ w with stale := false } : World) = w := by
  cases w
  cases hclean
  rfl

theorem stays_update {f : Database → Database} (h : f w.db = w.db) :
    Stays (execUpdate true f) w := by
  rw [Stays, after_execUpdate]
  split
  · exact clean_eq hclean
  · rw [h, clean_eq hclean]

theorem stays_entries {f : Table EntryRow → Table EntryRow}
    (h : f w.db.playlistSongs = w.db.playlistSongs) : Stays (execUpdate true (.mapEntries f)) w :=
  stays_update hclean (by rw [Database.mapEntries, h])

theorem stays_size (pl : PlayList) : Stays pl.size w := by
  cases pl with
  | stored p =>
    refine Stays.bind ?_ fun n _ => ?_
    · rw [Stays, after_execSelect, clean_eq hclean]
    · unfold countUnsigned
      split <;> rfl
  | complete =>
    refine Stays.bind rfl fun n _ => ?_
    unfold countUnsigned
    split <;> rfl

theorem stays_songsWhere (field : SongRow → Int) (id : Int) : Stays (songsWhere field id) w := by
  rw [Stays, songsWhere, after_loadRows, hclean]
  exact clean_eq hclean

theorem stays_insertNone (position : Int) : Stays (PlayList.complete.insertSongs [] position) w := by
  refine Stays.bind rfl fun id _ => Stays.bind (stays_entries hclean ?_) fun _ _ => rfl
  exact Table.updateWhere_eq_self fun r _ _ => by simp

/-- The songs of something without songs. -/
theorem songsWhere_none {field : SongRow → Int} {id : Int}
    (h : w.db.songs.select (fun _ s => field s == id) = []) :
    outcome (songsWhere field id) w = .ok [] := by
  rw [songsWhere, outcome_loadRows, hclean, h]
  simp [orderByTrack, orderByUpper]

theorem stays_insertWhere {field : SongRow → Int} {id : Int}
    (h : w.db.songs.select (fun _ s => field s == id) = []) (position : Int) :
    Stays (songsWhere field id >>= fun songs => PlayList.complete.insertSongs songs position)
      w := by
  refine Stays.bind (stays_songsWhere hclean _ _) fun songs hs => ?_
  rw [songsWhere_none hclean h] at hs
  obtain rfl := Except.ok.inj hs
  exact stays_insertNone hclean position

omit hclean in
theorem shifted_none {id : Int} (h : w.db.entriesOf id = []) (position n : Int) :
    PlayList.shifted id position n w.db.playlistSongs = w.db.playlistSongs := by
  refine Table.updateWhere_eq_self fun r hr hp => ?_
  have hmem : r ∈ w.db.entriesOf id := Table.mem_select.mpr ⟨hr, by simp_all⟩
  simp [h] at hmem

/-- Where the size of the other playlist is asked for in the middle of the statement, SQLite
refuses the text. -/
theorem stays_insertRefused (hops : env.operandsFirst = false) (p : PlayListFields)
    (position : Int) : Stays (PlayList.complete.insertPlayList env (.stored p) position) w := by
  have hroom : PlayList.makeRoom env .complete (.stored p) position =
      PlayList.complete.dbId >>= fun _ => prepare false := by
    simp only [PlayList.makeRoom, hops]
  unfold PlayList.insertPlayList
  rw [hroom]
  refine Stays.bind (Stays.bind rfl fun _ _ => ?_) fun _ h => ?_
  · rw [Stays, after_prepare, clean_eq hclean]
  · rw [outcome_bind_ok (rfl : outcome PlayList.complete.dbId w = .ok _), outcome_prepare,
      if_pos (.inr rfl)] at h
    cases h

/-- An instance without entries has nothing to move and nothing to insert. -/
theorem stays_insertPlayList (hsql : env.ListsEntries) (h : w.db.entriesOf w.complete.dbId = [])
    (other : PlayList) (position : Int) :
    Stays (PlayList.complete.insertPlayList env other position) w := by
  unfold PlayList.insertPlayList
  refine Stays.bind ?_ fun _ _ => Stays.bind rfl fun id _ => Stays.bind ?_ fun ids hids => ?_
  · unfold PlayList.makeRoom
    refine Stays.bind rfl fun id hid => ?_
    obtain rfl : w.complete.dbId = id := Except.ok.inj hid
    split
    · rw [Stays, after_prepare, clean_eq hclean]
    · exact Stays.bind (stays_size hclean _) fun n _ =>
        stays_entries hclean (shifted_none h _ _)
  · rw [Stays, PlayList.after_songIds, clean_eq hclean]
  · have hnil : ids = [] := by
      obtain ⟨order, rows, horder, hrows, rfl⟩ := PlayList.songIds_ok ⟨rfl, rfl⟩ hids
      have hall := hsql _ order horder _ _ _ hrows
      rw [show w.db.entriesOf w.complete.fields.dbId = [] from h] at hall
      have hrows : rows = [] :=
        List.eq_nil_iff_forall_not_mem.mpr fun r hr => by simpa using hall r hr
      rw [hrows]
      rfl
    rw [hnil]
    rfl

theorem stays_remove {songId : Int} (h : (Call.remove songId).Harmless env w) :
    Stays (PlayList.complete.remove songId) w := by
  have hnone : ∀ r ∈ w.db.playlistSongs.rows,
      (r.2.playlistId == w.complete.dbId && r.2.songId == songId) = false := by
    intro r hr
    by_cases hid : r.2.playlistId = w.complete.dbId
    · simpa [hid] using h r (Table.mem_select.mpr ⟨hr, by simpa using hid⟩)
    · simp [hid]
  refine Stays.bind rfl fun id hid => ?_
  obtain rfl : w.complete.dbId = id := Except.ok.inj hid
  refine Stays.bind (stays_entries hclean ?_) fun _ _ => stays_entries hclean ?_
  · unfold PlayList.closedGap
    rw [show Table.select _ _ = [] from List.filter_eq_nil_iff.mpr fun r hr => by simp [hnone r hr]]
    rfl
  · exact Table.deleteWhere_eq_self hnone

theorem stays_clear (h : Call.clear.Harmless env w) : Stays PlayList.complete.clear w := by
  refine Stays.bind rfl fun id hid => ?_
  obtain rfl : w.complete.dbId = id := Except.ok.inj hid
  refine stays_entries hclean (Table.deleteWhere_eq_self fun r hr => ?_)
  have hnone := List.filter_eq_nil_iff.mp h r hr
  simpa using hnone

theorem stays_setSongOrder {songId order : Int} (h : (Call.setSongOrder songId order).Harmless env w) :
    Stays (PlayList.complete.setSongOrder songId order) w := by
  refine Stays.bind rfl fun id hid => ?_
  obtain rfl : w.complete.dbId = id := Except.ok.inj hid
  refine stays_entries hclean (Table.updateWhere_eq_self fun r hr hp => ?_)
  simp only [Bool.and_eq_true, beq_iff_eq] at hp
  have hsame := h r (Table.mem_select.mpr ⟨hr, by simpa using hp.2⟩) hp.1
  rw [← hsame]

end

/-! ## Harmless calls -/

section

variable {env : Env} {before : Database} {w : World} (h : Steady before w)

include h

/-- Saving the instance over the row that it has. -/
theorem Steady.save (hid : w.complete.dbId ≠ 0) : Steady before (after (Call.save.run env) w) := by
  have hafter := PlayListFields.after_save w.complete.fields w
  have hsaved : Steady before (after w.complete.fields.save w) := by
    rw [hafter, h.clean]
    cases w.complete.fields.toRow with
    | none => exact { h with clean := rfl }
    | some row =>
      refine { h with clean := rfl, playLists := ?_ }
      simp only [PlayListFields.saved, Database.mapPlayLists]
      rw [if_neg (show w.complete.fields.dbId ≠ 0 from hid), Table.rowids_updateWhere]
      exact h.playLists
  change Steady before (after (w.complete.fields.save >>= _) w)
  rw [after_bind]
  cases outcome w.complete.fields.save w with
  | error e => exact hsaved
  | ok id => exact { hsaved with order := hsaved.order }

/-- A harmless call preserves what is steady. -/
theorem Steady.step (hsql : env.ListsEntries) {c : Call} (hc : c.Harmless env w) :
    Steady before (after (c.run env) w) := by
  have hstay : ∀ {x : Act Unit}, Stays x w → Steady before (after x w) := fun hx => by
    rw [hx]
    exact h
  cases c with
  | insertSongs songs position =>
    obtain rfl : songs = [] := hc
    exact hstay (stays_insertNone h.clean position)
  | insertSong song position => exact hc.elim
  | insertPlayList other position =>
    rcases hc with hc | hc
    · cases other with
      | stored p => exact hstay (stays_insertRefused h.clean hc p position)
      | complete => exact hc.elim
    · exact hstay (stays_insertPlayList h.clean hsql hc other position)
  | insertDir dir position => exact hstay (stays_insertWhere h.clean hc position)
  | insertArtist artist position => exact hstay (stays_insertWhere h.clean hc position)
  | insertAlbum album position => exact hstay (stays_insertWhere h.clean hc position)
  | remove songId => exact hstay (stays_remove h.clean hc)
  | clear => exact hstay (stays_clear h.clean hc)
  | setSongOrder songId order => exact hstay (stays_setSongOrder h.clean hc)
  | setOrder column known descending =>
    exact { h with order := .inr ⟨column, known, descending, rfl⟩ }
  | setName name => exact { h with order := h.order }
  | setDescription description => exact { h with order := h.order }
  | save => exact h.save hc

end

/-- **In a run of harmless calls the tables keep their entries and rows, and the instance describes
all songs.** -/
theorem harmless_runs_intact {env : Env} (hsort : env.SortsColumns) (hlist : env.ListsEntries)
    {w : World} (hclean : w.stale = false) (horder : OrderKnown w.complete) {calls : List Call}
    (h : AllHarmless env w calls) : ∀ w' ∈ states env w calls, Intact env w.db w' := by
  have hsteady : ∀ w' ∈ states env w calls, Steady w.db w' := by
    have hstart : Steady w.db w := ⟨hclean, horder, rfl, rfl, rfl⟩
    generalize w.db = before at hstart
    induction calls generalizing w with
    | nil =>
      intro w' hw'
      obtain rfl := List.mem_singleton.mp hw'
      exact hstart
    | cons c cs ih =>
      intro w' hw'
      have hnext := hstart.step hlist h.1
      rcases List.mem_cons.mp hw' with rfl | hw'
      · exact hstart
      · exact ih hnext.clean hnext.order h.2 hnext w' hw'
  exact fun w' hw' => (hsteady w' hw').intact hsort

/-! ## Calls that write -/

/-- A library of one song, with the row of the playlist 1. -/
def oneSong : Database :=
  { Database.empty with
    songs := .single 1 ⟨1, 1, 1, .ofLiteral (lit "a") nulFree_a, .ofLiteral (lit "a") nulFree_a, 0, 0, 0, 0⟩
    playlists := .single 1 ⟨.empty, .empty, .ofLiteral (lit "present_order desc") nulFree_newOrder, 0⟩ }

/-- The song of that library is inserted at the front. -/
def insertFirst : Call :=
  .insertSong ⟨1, 1, 1, 1, lit "a", lit "a", 0, 0, 0, 0, [], []⟩ 1

omit [Affinity] in
/-- Inserting a song adds an entry, and saving adds a row to `playlists`. -/
theorem calls_write :
    let w := @World.start integerAffinity (@oneSong integerAffinity)
    let env := @Env.sorting integerAffinity
    ¬ @Intact integerAffinity env (@World.db integerAffinity w)
        (after (@Call.run integerAffinity env insertFirst) w) ∧
      ¬ @Intact integerAffinity env (@World.db integerAffinity w)
        (after (@Call.run integerAffinity env Call.save) w) := by
  constructor
  · intro h
    exact absurd (@Intact.entries integerAffinity _ _ _ h) (by decide)
  · intro h
    exact absurd (@Intact.playLists integerAffinity _ _ _ h) (by decide)

/-- Calls that move and remove what is not there. -/
def quietCalls : List Call :=
  [.setOrder (lit "title") (by decide) true, .remove 1, .setSongOrder 1 2, .clear,
    .insertSongs [] 1, .setName (lit "all")]

omit [Affinity] in
theorem quietCalls_harmless :
    @AllHarmless integerAffinity (@Env.sorting integerAffinity)
      (@World.start integerAffinity (@oneSong integerAffinity)) quietCalls := by
  have hnone : ∀ p : Int × EntryRow → Prop, ∀ e ∈ ([] : List (Int × EntryRow)), p e := by simp
  exact And.intro trivial (.intro (hnone _) (.intro (hnone _) (.intro rfl (.intro rfl
    (.intro trivial trivial)))))

omit [Affinity] in
theorem quietCalls_intact :
    let w := @World.start integerAffinity (@oneSong integerAffinity)
    ∀ w' ∈ @states integerAffinity (@Env.sorting integerAffinity) w quietCalls,
      @Intact integerAffinity (@Env.sorting integerAffinity) (@World.db integerAffinity w) w' :=
  @harmless_runs_intact integerAffinity _ (@Env.sorting_sortsColumns integerAffinity)
    (@Env.sorting_listsEntries integerAffinity) _ rfl (.inl rfl) _ 
    quietCalls_harmless

end Spinny

import Spinny.Answers
import Spinny.Listings
import Spinny.Reconciling

/-!
# What the entries of the playlists name

An entry names its song by the rowid, and nothing ties it to the row: a scan deletes songs without
a look at the playlists, and SQLite gives the rowid of the last song away again.

* `Change`: a scan, the deletion of a song or of a directory, or a call of a playlist.
* `entries_traced`: where the entries of a run come from, and what became of their songs.
* `entries_intact`: runs that leave the songs of the playlists alone.
-/

namespace Spinny

open Bytes Sqlite Proc

variable [Affinity]

/-! ## Code that scans -/

/-- `R` holds between the ends of what a scan is made of. -/
structure Scans (R : Logged → Logged → Prop) : Prop where
  queries : ∀ {α : Type} {x : Run α}, Queries x → Keeps R x.scan
  reading : Keeps R reading
  saveDir : ∀ d : MusicDir, Keeps R d.saveNew
  saveSong : ∀ song : Song, Keeps R song.saveNew
  destroySong : ∀ song : Song, Keeps R song.destroy
  destroyRow : ∀ d : MusicDir, Keeps R d.destroyRow

namespace Scans

variable {R : Logged → Logged → Prop} [Std.Refl R] [IsTrans Logged R] {disk : Disk}

omit [Std.Refl R] [IsTrans Logged R] in
theorem path (h : Scans R) (d : MusicDir) : Keeps R d.path.scan := h.queries (.path d)

omit [Std.Refl R] [IsTrans Logged R] in
theorem rows (h : Scans R) {α : Type} (f : Database → List α) :
    Keeps R (loadRows true f).run.scan := h.queries (.run (.loadRows true f))

omit [IsTrans Logged R] in
theorem saveIfNeeded (h : Scans R) (d : MusicDir) : Keeps R d.saveIfNeeded := by
  unfold MusicDir.saveIfNeeded
  split
  · exact h.saveDir d
  · exact Keeps.pure _

theorem destroyFrom (h : Scans R) (fuel : Nat) (d : MusicDir) : Keeps R (d.destroyFrom fuel) := by
  induction fuel generalizing d with
  | zero => exact Keeps.throw _
  | succ fuel ih =>
    refine (h.rows _).bind fun dirs => (Keeps.forM dirs ih).bind fun _ => ?_
    exact (h.rows _).bind fun songs => (Keeps.forM songs h.destroySong).bind fun _ => h.destroyRow d

theorem destroy (h : Scans R) (d : MusicDir) : Keeps R d.destroy :=
  Keeps.get.bind fun _ => h.destroyFrom _ d

theorem createFromFile (h : Scans R) (disk : Disk) (d : MusicDir) (name : Bytes) :
    Keeps R (Song.createFromFile disk d name) := by
  refine (h.saveIfNeeded d).bind fun d => (h.path d).bind fun path => ?_
  refine (keeps_existsAt h.reading disk _).bind fun found => ?_
  split
  · exact Keeps.throw _
  · refine (keeps_readTag h.reading disk _).bind fun tag => ?_
    have hfind : ∀ {α : Type} (n : Names α) name, Keeps R (n.findOrCreate name).run.scan :=
      fun n name => h.queries (.run (.findOrCreate n name))
    refine (hfind artistNames _).bind fun artist => (hfind albumNames _).bind fun album => ?_
    exact h.saveSong _

theorem visit (h : Scans R) {sync : MusicDir → Scan Unit} (hsync : ∀ d, Keeps R (sync d))
    (d : MusicDir) (path : List Bytes) (left : Unmet) (leaf : Bytes) :
    Keeps R (d.visit disk (Song.createFromFile disk) sync path left leaf) := by
  refine (keeps_isDirectory h.reading disk _).bind fun isDir => ?_
  split
  · unfold MusicDir.visitDir
    split
    · exact (hsync _).bind fun _ => Keeps.pure _
    · exact (h.saveDir _).bind fun child => (hsync child).bind fun _ => Keeps.pure _
  · unfold MusicDir.visitFile
    split
    · split
      · exact Keeps.pure _
      · refine (Keeps.tryCatch ?_ fun e => ?_).bind fun _ => Keeps.pure _
        · exact (h.createFromFile disk d leaf).bind fun _ => Keeps.pure _
        · cases e with
          | fileError => exact Keeps.pure _
          | _ => exact Keeps.throw _
    · exact Keeps.pure _

theorem syncSaved (h : Scans R) (disk : Disk) {left : Nat} (hsync : ∀ n, n < left → ∀ d,
      Keeps R (MusicDir.syncFrom disk (Song.createFromFile disk) n d)) (d : MusicDir) :
    Keeps R (d.syncSaved disk (Song.createFromFile disk) left) := by
  cases left with
  | zero => exact Keeps.pure _
  | succ left =>
    unfold MusicDir.syncSaved
    refine (h.path d).bind fun path => (keeps_existsAt h.reading disk path).bind fun found => ?_
    split
    · refine (h.rows _).bind fun dirs => (h.rows _).bind fun songs => (h.path d).bind fun path => ?_
      refine (keeps_list h.reading disk path).bind fun entries => ?_
      have hone := hsync left (Nat.lt_succ_self left)
      refine (Keeps.foldlM _ (fun unmet leaf => h.visit hone d path unmet leaf) _).bind
        fun unmet => ?_
      split
      · exact Keeps.throw _
      · exact (Keeps.forM _ h.destroy).bind fun _ => Keeps.forM _ h.destroySong
    · exact Keeps.pure _

theorem syncFrom (h : Scans R) (disk : Disk) (left : Nat) (d : MusicDir) :
    Keeps R (d.syncFrom disk (Song.createFromFile disk) left) := by
  induction left using Nat.strong_induction_on generalizing d with
  | _ left ih =>
    rw [syncFrom_eq]
    exact (h.path d).bind fun _ => (h.saveIfNeeded d).bind fun d => h.syncSaved disk ih d

theorem rescan (h : Scans R) (disk : Disk) (dirs : List Bytes) :
    Keeps R (Spinny.rescan disk dirs) :=
  Keeps.forM dirs fun dir => (h.queries (.run (.createRoot dir))).bind fun d =>
    h.syncFrom disk 255 d

end Scans

/-! ## What becomes of the songs -/

/-- The entry of a song in a playlist is there, at whatever place. -/
def Enters (db : Database) (playlistId songId : Int) : Prop :=
  ∃ r ∈ db.playlistSongs.rows, r.2.playlistId = playlistId ∧ r.2.songId = songId

/-- Songs get into a playlist only where `asked` says so, and a song that is gone stands in the
log. -/
structure Follows (asked : Int → Int → Prop) (s s' : Logged) : Prop where
  entries : ∀ playlistId songId, Enters s'.db playlistId songId →
    Enters s.db playlistId songId ∨ asked playlistId songId
  events : ∃ since, s'.events = since ++ s.events ∧
    ∀ r ∈ s.db.songs.rows, r ∈ s'.db.songs.rows ∨ .deleted r.1 ∈ since

namespace Follows

variable {asked asked' : Int → Int → Prop} {s s' s'' : Logged}

theorem refl (s : Logged) : Follows asked s s :=
  ⟨fun _ _ => .inl, [], rfl, fun _ => .inl⟩

theorem trans (h : Follows asked s s') (h' : Follows asked s' s'') : Follows asked s s'' where
  entries playlistId songId he := by
    rcases h'.entries playlistId songId he with he | ha
    · exact h.entries playlistId songId he
    · exact .inr ha
  events := by
    obtain ⟨first, hfirst, hrows⟩ := h.events
    obtain ⟨later, hlater, hrows'⟩ := h'.events
    refine ⟨later ++ first, by rw [hlater, hfirst, List.append_assoc], fun r hr => ?_⟩
    rcases hrows r hr with hr | hdel
    · exact (hrows' r hr).imp_right fun hdel => List.mem_append_left _ hdel
    · exact .inr (List.mem_append_right _ hdel)

instance : Std.Refl (Follows asked) := ⟨refl⟩

instance : IsTrans Logged (Follows asked) := ⟨fun _ _ _ => trans⟩

/-- Where the entries, the songs and the log are as before. -/
theorem of_eq (hentries : s'.db.playlistSongs = s.db.playlistSongs)
    (hsongs : s'.db.songs = s.db.songs) (hevents : s'.events = s.events) :
    Follows asked s s' where
  entries playlistId songId he := by
    unfold Enters at he
    rw [hentries] at he
    exact .inl he
  events := ⟨[], hevents, fun r hr => .inl (hsongs ▸ hr)⟩

/-- What is asked for is there already. -/
theorem of_asked (h : Follows asked' s s')
    (ha : ∀ playlistId songId, asked' playlistId songId →
      Enters s.db playlistId songId ∨ asked playlistId songId) : Follows asked s s' where
  entries playlistId songId he :=
    (h.entries playlistId songId he).elim .inl (ha playlistId songId)
  events := h.events

end Follows

section

variable {asked : Int → Int → Prop}

/-- Code of the world writes no log. -/
theorem follows_scan {α : Type} {x : Run α} (s : Logged)
    (h : ∀ playlistId songId, Enters (after x s.world).db playlistId songId →
      Enters s.db playlistId songId ∨ asked playlistId songId)
    (hsongs : (after x s.world).db.songs = s.db.songs) : Follows asked s (after x.scan s) := by
  rw [Run.scan, after_focus]
  exact ⟨h, [], rfl, fun r hr => .inl (hsongs ▸ hr)⟩

theorem Queries.follows {α : Type} {x : Run α} (h : Queries x) :
    Keeps (Follows asked) x.scan := by
  intro s
  have hdb : (after x s.world).db = s.db := congrArg Prod.fst (h s.world)
  refine follows_scan s (fun playlistId songId he => ?_) (congrArg Database.songs hdb)
  rw [hdb] at he
  exact .inl he

theorem same_events_change (accepted : Bool) (f : Database → Database) :
    Keeps (Same Logged.events) (change accepted f) := by
  have hrun : Keeps (Same Logged.events) (execUpdate accepted f).run.scan := by
    intro s
    rw [Same, Run.scan, after_focus]
  exact hrun.bind fun _ => Keeps.change fun _ => rfl

/-- A change of the library that deletes no song. -/
theorem follows_change {accepted : Bool} {f : Database → Database}
    (hentries : ∀ db, (f db).playlistSongs = db.playlistSongs)
    (hsongs : ∀ db, ∀ r ∈ db.songs.rows, r ∈ (f db).songs.rows) :
    Keeps (Follows asked) (change accepted f) := by
  intro s
  have hevents := same_events_change accepted f s
  rcases change_tables accepted f s with ⟨-, -, ht⟩ | ⟨-, ht⟩
  · have hdb : (after (change accepted f) s).db = f s.db := congrArg Prod.fst ht
    refine ⟨fun playlistId songId he => .inl ?_, [], hevents, fun r hr => .inl ?_⟩
    · unfold Enters at he
      rwa [hdb, hentries] at he
    · rw [hdb]
      exact hsongs s.db r hr
  · have hdb : (after (change accepted f) s).db = s.db := congrArg Prod.fst ht
    exact .of_eq (congrArg Database.playlistSongs hdb) (congrArg Database.songs hdb) hevents

theorem follows_destroySong (song : Song) : Keeps (Follows asked) song.destroy := by
  unfold Song.destroy
  split
  · intro s
    rcases change_tables true (.mapSongs fun t => t.deleteWhere fun id _ => id == song.dbId) s with
      ⟨ho, -, ht⟩ | ⟨⟨e, ho⟩, ht⟩
    · have hevents := same_events_change true
        (.mapSongs fun t => t.deleteWhere fun id _ => id == song.dbId) s
      have hdb := congrArg Prod.fst ht
      dsimp only [tables] at hdb
      rw [after_bind_ok ho, after_modify]
      refine ⟨fun playlistId songId he => .inl ?_, [.deleted song.dbId], ?_, fun r hr => ?_⟩
      · unfold Enters at he
        change ∃ r ∈ (after _ s).db.playlistSongs.rows, _ at he
        rwa [hdb] at he
      · change _ :: (after _ s).events = _
        rw [hevents]
        rfl
      · change r ∈ (after _ s).db.songs.rows ∨ _
        rw [hdb]
        by_cases hid : r.1 = song.dbId
        · exact .inr (by rw [hid]; exact List.mem_singleton_self _)
        · exact .inl (Table.mem_rows_deleteWhere.mpr ⟨hr, by simpa using hid⟩)
    · rw [after_bind_error ho]
      have hdb := congrArg Prod.fst ht
      exact .of_eq (congrArg Database.playlistSongs hdb) (congrArg Database.songs hdb)
        (same_events_change _ _ s)
  · exact Keeps.pure _

theorem follows_scans : Scans (Follows asked) where
  queries := Queries.follows
  reading s := .of_eq rfl rfl rfl
  saveDir d := by
    refine Keeps.get.bind fun _ => (follows_change ?_ ?_).bind fun _ => Keeps.pure _
    · intro db
      split <;> rfl
    · intro db r hr
      split <;> exact hr
  saveSong song := by
    refine Keeps.get.bind fun _ => (follows_change ?_ ?_).bind fun _ => Keeps.pure _
    · intro db
      split <;> rfl
    · intro db r hr
      split
      · exact Table.mem_rows_insert.mpr (.inl hr)
      · exact hr
  destroySong := follows_destroySong
  destroyRow d := by
    unfold MusicDir.destroyRow
    split
    · exact follows_change (fun _ => rfl) fun _ _ hr => hr
    · exact Keeps.pure _

end

/-! ## The calls of a playlist -/

/-- A call of a playlist leaves the library, and entries that were there or that `asked` allows. -/
structure Puts (asked : Int → Int → Prop) (w w' : World) : Prop where
  songs : w'.db.songs = w.db.songs
  dirs : w'.db.musicDirs = w.db.musicDirs
  entries : ∀ playlistId songId, Enters w'.db playlistId songId →
    Enters w.db playlistId songId ∨ asked playlistId songId

namespace Puts

variable {asked : Int → Int → Prop} {ε α : Type}

instance : Std.Refl (Puts asked) := ⟨fun _ => ⟨rfl, rfl, fun _ _ => .inl⟩⟩

instance : IsTrans World (Puts asked) := ⟨fun _ _ _ h h' => {
  songs := h'.songs.trans h.songs
  dirs := h'.dirs.trans h.dirs
  entries playlistId songId he := by
    rcases h'.entries playlistId songId he with he | ha
    · exact h.entries playlistId songId he
    · exact .inr ha }⟩

theorem queries {x : Proc World ε α} (h : Queries x) : Keeps (Puts asked) x := by
  intro w
  have hdb : (after x w).db = w.db := congrArg Prod.fst (h w)
  refine ⟨congrArg Database.songs hdb, congrArg Database.musicDirs hdb, fun _ _ he => .inl ?_⟩
  rwa [hdb] at he

theorem mapPlayLists (accepted : Bool) (f : Table PlayListRow → Table PlayListRow) :
    Keeps (Puts asked) (execUpdate accepted (.mapPlayLists f)) := by
  intro w
  rw [after_execUpdate]
  split <;> exact ⟨rfl, rfl, fun _ _ => .inl⟩

theorem mapEntries {f : Table EntryRow → Table EntryRow}
    (hf : ∀ t, ∀ r ∈ (f t).rows, (∃ q ∈ t.rows, q.2.playlistId = r.2.playlistId ∧
      q.2.songId = r.2.songId) ∨ asked r.2.playlistId r.2.songId) :
    Keeps (Puts asked) (execUpdate true (.mapEntries f)) := by
  intro w
  rw [after_execUpdate]
  split
  · exact ⟨rfl, rfl, fun _ _ => .inl⟩
  · refine ⟨rfl, rfl, fun playlistId songId he => ?_⟩
    obtain ⟨r, hr, rfl, rfl⟩ := he
    exact hf w.db.playlistSongs r hr

theorem move {p : Int → EntryRow → Bool} {f : EntryRow → EntryRow}
    (hf : ∀ e, (f e).playlistId = e.playlistId ∧ (f e).songId = e.songId) :
    Keeps (Puts asked) (execUpdate true (.mapEntries fun t => t.updateWhere p f)) := by
  refine mapEntries fun t r hr => .inl ?_
  obtain ⟨q, hq, rfl⟩ := Table.mem_rows_updateWhere.mp hr
  refine ⟨q, hq, ?_⟩
  split
  · exact ⟨(hf q.2).1.symm, (hf q.2).2.symm⟩
  · exact ⟨rfl, rfl⟩

theorem delete (p : Int → EntryRow → Bool) :
    Keeps (Puts asked) (execUpdate true (.mapEntries fun t => t.deleteWhere p)) :=
  mapEntries fun _ r hr => .inl ⟨r, (Table.mem_rows_deleteWhere.mp hr).1, rfl, rfl⟩

theorem shifted (id position size : Int) :
    Keeps (Puts asked) (execUpdate true (.mapEntries (PlayList.shifted id position size))) :=
  move fun _ => ⟨rfl, rfl⟩

theorem insertEntry {id songId : Int} (ha : asked id songId) (position : Int) :
    Keeps (Puts asked) (PlayList.insertEntry id songId position) := by
  refine mapEntries fun t r hr => ?_
  rcases Table.mem_rows_insert.mp hr with hr | rfl
  · exact .inl ⟨r, hr, rfl, rfl⟩
  · exact .inr ha

theorem insertSongs {id : Int} {songs : List Song} (ha : ∀ s ∈ songs, asked id s.dbId)
    (position : Int) :
    Keeps (Puts asked) (do
      execUpdate true (.mapEntries (PlayList.shifted id position songs.length))
      songs.zipIdx.forM fun s => PlayList.insertEntry id s.1.dbId (toInt32 (position + s.2))) := by
  refine (shifted _ _ _).bind fun _ => Keeps.forM_mem fun s hs => ?_
  exact insertEntry (ha s.1 (List.fst_mem_of_mem_zipIdx hs)) _

end Puts

/-- The `db_id` behind a pointer. -/
def PlayList.idIn (w : World) : PlayList → Int
  | .stored p => p.dbId
  | .complete => w.complete.dbId

namespace PlayList

variable {asked : Int → Int → Prop} {w : World}

theorem dbId_returns (pl : PlayList) (w : World) : Returns pl.dbId w (pl.idIn w) w := by
  cases pl with
  | stored p => exact ⟨rfl, rfl⟩
  | complete => exact ⟨rfl, rfl⟩

theorem after_dbId_bind (pl : PlayList) (w : World) {β : Type} (f : Int → Act β) :
    after (pl.dbId >>= f) w = after (f (pl.idIn w)) w := by
  rw [after_bind_ok (pl.dbId_returns w).outcome, (pl.dbId_returns w).after]

theorem insertSongs_puts {pl : PlayList} {songs : List Song}
    (ha : ∀ s ∈ songs, asked (pl.idIn w) s.dbId) (position : Int) :
    Puts asked w (after (pl.insertSongs songs position) w) := by
  unfold insertSongs
  rw [after_dbId_bind]
  exact Puts.insertSongs ha position w

theorem insertSong_puts {pl : PlayList} {song : Song} (ha : asked (pl.idIn w) song.dbId)
    (position : Int) : Puts asked w (after (pl.insertSong song position) w) := by
  unfold insertSong
  rw [after_dbId_bind]
  exact ((Puts.shifted _ _ _).bind fun _ => Puts.insertEntry ha position) w

/-- The songs of a directory, an artist or an album have rows. -/
theorem insertWhere_puts {pl : PlayList} {field : SongRow → Int} {id : Int}
    (ha : ∀ r ∈ w.db.songs.rows, field r.2 = id → asked (pl.idIn w) r.1) (position : Int) :
    Puts asked w (after (do pl.insertSongs (← songsWhere field id) position) w) := by
  have hrows : Puts asked w (after (songsWhere field id) w) :=
    Puts.queries (Queries.songsWhere field id) w
  cases ho : outcome (songsWhere field id) w with
  | error e =>
    rw [after_bind_error ho]
    exact hrows
  | ok songs =>
    rw [after_bind_ok ho]
    refine IsTrans.trans _ _ _ hrows (insertSongs_puts (fun s hs => ?_) position)
    have hsame : Spinny.stored (after (songsWhere field id) w) = Spinny.stored w :=
      Queries.songsWhere field id w
    have hid : pl.idIn (after (songsWhere field id) w) = pl.idIn w := by
      cases pl with
      | stored p => rfl
      | complete => exact congrArg (fun v => v.2.dbId) hsame
    rw [loadRows_ok ho] at hs
    obtain ⟨r, hr, rfl⟩ := List.mem_map.mp hs
    rw [orderByTrack, orderByUpper, List.mem_mergeSort, List.mem_mergeSort] at hr
    obtain ⟨hmem, hfield⟩ := Table.mem_select.mp hr
    rw [hid]
    exact ha r hmem (by simpa using hfield)

theorem makeRoom_puts (env : Env) (pl other : PlayList) (position : Int) :
    Keeps (Puts asked) (makeRoom env pl other position) := by
  refine (Puts.queries (Queries.dbId pl)).bind fun _ => ?_
  split
  · exact Puts.queries (Queries.prepare _)
  · exact (Puts.queries (Queries.size _)).bind fun _ => Puts.shifted _ _ _

/-- The songs that are inserted are in the playlist already. -/
theorem insertPlayList_puts {env : Env} (hsql : env.ListsEntries) (pl other : PlayList)
    (position : Int) : Keeps (Puts asked) (pl.insertPlayList env other position) := by
  refine (makeRoom_puts env pl other position).bind fun _ => fun w => ?_
  rw [after_dbId_bind]
  obtain ⟨p, hp⟩ := fields_returns pl w
  have hid : p.dbId = pl.idIn w := by
    cases pl with
    | stored _ => exact congrArg PlayListFields.dbId (Except.ok.inj hp.outcome).symm
    | complete => exact congrArg PlayListFields.dbId (Except.ok.inj hp.outcome).symm
  cases ho : outcome (pl.songIds env) w with
  | error e =>
    rw [after_bind_error ho]
    exact Puts.queries (Queries.songIds env pl) w
  | ok ids =>
    rw [after_bind_ok ho, after_songIds]
    obtain ⟨order, rows, horder, hrows, rfl⟩ := songIds_ok hp ho
    have hloop : Keeps (Puts (Enters w.db)) ((rows.map fun e => e.2.songId).zipIdx.forM fun s =>
        insertEntry (pl.idIn w) s.1 (toInt32 (position + s.2 + 1))) := by
      refine Keeps.forM_mem fun s hs => Puts.insertEntry ?_ _
      obtain ⟨r, hr, hrid⟩ := List.mem_map.mp (List.fst_mem_of_mem_zipIdx hs)
      have hmem := Table.mem_select.mp (hsql _ order horder _ _ _ hrows r hr)
      exact ⟨r, hmem.1, by simpa [hid] using hmem.2, hrid⟩
    obtain ⟨hsongs, hdirs, hentries⟩ := hloop { w with stale := false }
    exact ⟨hsongs, hdirs, fun playlistId songId he => .inl ((hentries _ _ he).elim id id)⟩

theorem clear_puts (pl : PlayList) : Keeps (Puts asked) pl.clear :=
  (Puts.queries (Queries.dbId pl)).bind fun _ => Puts.delete _

theorem remove_puts (pl : PlayList) (songId : Int) : Keeps (Puts asked) (pl.remove songId) := by
  refine (Puts.queries (Queries.dbId pl)).bind fun id => Keeps.bind ?_ fun _ => Puts.delete _
  refine Puts.mapEntries fun t r hr => .inl ?_
  unfold closedGap at hr
  split at hr
  · obtain ⟨q, hq, rfl⟩ := Table.mem_rows_updateWhere.mp hr
    refine ⟨q, hq, ?_⟩
    split <;> exact ⟨rfl, rfl⟩
  · exact ⟨r, hr, rfl, rfl⟩

theorem setSongOrder_puts (pl : PlayList) (songId order : Int) :
    Keeps (Puts asked) (pl.setSongOrder songId order) :=
  (Puts.queries (Queries.dbId pl)).bind fun _ => Puts.move fun _ => ⟨rfl, rfl⟩

theorem save_puts (pl : PlayList) : Keeps (Puts asked) pl.save := by
  have hrow : ∀ p : PlayListFields, Keeps (Puts asked) p.save := by
    intro p
    refine Keeps.get.bind fun _ => Keeps.bind ?_ fun _ => Keeps.pure _
    cases p.toRow with
    | none => exact Puts.mapPlayLists false id
    | some row => exact Puts.mapPlayLists true _
  refine (Puts.queries (Queries.fields pl)).bind fun p => (hrow p).bind fun _ => ?_
  cases pl with
  | stored _ => exact Keeps.pure _
  | complete => exact fun _ => ⟨rfl, rfl, fun _ _ => .inl⟩

theorem setOrder_puts (pl : PlayList) (order : Bytes) (descending : Bool) :
    Keeps (Puts asked) (pl.setOrder order descending) := by
  cases pl with
  | stored p =>
    unfold setOrder
    dsimp only
    split
    · exact Keeps.pure _
    · exact (save_puts _).bind fun _ => Keeps.pure _
  | complete => exact fun _ => ⟨rfl, rfl, fun _ _ => .inl⟩

end PlayList

/-! ## Changes -/

/-- A call of a playlist. -/
inductive ListCall where
  | insertSongs (pl : PlayList) (songs : List Song) (position : Int)
  | insertSong (pl : PlayList) (song : Song) (position : Int)
  | insertPlayList (env : Env) (pl other : PlayList) (position : Int)
  | insertDir (pl : PlayList) (dir : MusicDir) (position : Int)
  | insertArtist (pl : PlayList) (artist : Artist) (position : Int)
  | insertAlbum (pl : PlayList) (album : Album) (position : Int)
  | remove (pl : PlayList) (songId : Int)
  | clear (pl : PlayList)
  | setSongOrder (pl : PlayList) (songId order : Int)
  | setOrder (pl : PlayList) (order : Bytes) (descending : Bool)
  | save (pl : PlayList)

namespace ListCall

/-- What a call runs. -/
def run : ListCall → Act Unit
  | insertSongs pl songs position => pl.insertSongs songs position
  | insertSong pl song position => pl.insertSong song position
  | insertPlayList env pl other position => pl.insertPlayList env other position
  | insertDir pl dir position => pl.insertDir dir position
  | insertArtist pl artist position => pl.insertArtist artist position
  | insertAlbum pl album position => pl.insertAlbum album position
  | remove pl songId => pl.remove songId
  | clear pl => pl.clear
  | setSongOrder pl songId order => pl.setSongOrder songId order
  | setOrder pl order descending => do
    let _ ← pl.setOrder order descending
  | save pl => pl.save

/-- The songs that the caller wants in a playlist. -/
def asked (w : World) : ListCall → List SongEvent
  | insertSongs pl songs _ => songs.map fun s => .inserted (pl.idIn w) s.dbId
  | insertSong pl song _ => [.inserted (pl.idIn w) song.dbId]
  | insertDir pl dir _ =>
    (w.db.songs.select fun _ s => s.dirId == dir.dbId).map fun r => .inserted (pl.idIn w) r.1
  | insertArtist pl artist _ =>
    (w.db.songs.select fun _ s => s.artistId == artist.dbId).map fun r =>
      .inserted (pl.idIn w) r.1
  | insertAlbum pl album _ =>
    (w.db.songs.select fun _ s => s.albumId == album.dbId).map fun r => .inserted (pl.idIn w) r.1
  | _ => []

/-- A call of `insert( PlayList::ptr, int )` gets entries from SQLite that there are. -/
def Lists : ListCall → Prop
  | insertPlayList env _ _ _ => env.ListsEntries
  | _ => True

theorem run_puts {c : ListCall} (h : c.Lists) (w : World) :
    Puts (fun playlistId songId => .inserted playlistId songId ∈ c.asked w) w
      (after c.run w) := by
  have hwhere : ∀ {pl : PlayList} {field : SongRow → Int} {id position : Int},
      c.asked w = (w.db.songs.select fun _ r => field r == id).map
        (fun r => .inserted (pl.idIn w) r.1) →
      Puts (fun playlistId songId => .inserted playlistId songId ∈ c.asked w) w
        (after (do pl.insertSongs (← songsWhere field id) position : Act Unit) w) := by
    intro pl field id position hasked
    refine PlayList.insertWhere_puts (fun r hr hfield => ?_) position
    rw [hasked]
    exact List.mem_map.mpr ⟨r, Table.mem_select.mpr ⟨hr, by simpa using hfield⟩, rfl⟩
  cases c with
  | insertSongs pl songs position =>
    refine PlayList.insertSongs_puts (fun song hsong => ?_) position
    exact List.mem_map.mpr ⟨song, hsong, rfl⟩
  | insertSong pl song position =>
    exact PlayList.insertSong_puts (List.mem_singleton_self _) position
  | insertPlayList env pl other position =>
    exact PlayList.insertPlayList_puts h pl other position w
  | insertDir pl dir position => exact hwhere rfl
  | insertArtist pl artist position => exact hwhere rfl
  | insertAlbum pl album position => exact hwhere rfl
  | remove pl songId => exact PlayList.remove_puts pl songId w
  | clear pl => exact PlayList.clear_puts pl w
  | setSongOrder pl songId order => exact PlayList.setSongOrder_puts pl songId order w
  | setOrder pl order descending =>
    exact ((PlayList.setOrder_puts pl order descending).bind fun _ => Keeps.pure _) w
  | save pl => exact PlayList.save_puts pl w

end ListCall

/-- What changes the library or the playlists. -/
inductive Change where
  | scan (disk : Disk) (dirs : List Bytes)
  | destroySong (song : Song)
  | destroyDir (dir : MusicDir)
  | call (c : ListCall)

namespace Change

/-- What a change runs. -/
def exec : Change → Scan Unit
  | scan disk dirs => rescan disk dirs
  | destroySong song => song.destroy
  | destroyDir dir => dir.destroy
  | call c => c.run.run.scan

/-- The songs that the caller wants in a playlist. -/
def asked (w : World) : Change → List SongEvent
  | call c => c.asked w
  | _ => []

/-- A change, with what it is asked for in the log. -/
def run (c : Change) : Scan Unit := do
  modify fun s => { s with events := c.asked s.world ++ s.events }
  c.exec

/-- The song is asked for. -/
def Asks (c : Change) (w : World) (playlistId songId : Int) : Prop :=
  .inserted playlistId songId ∈ c.asked w

/-- The songs that are to be inserted have rows. -/
structure Fits (c : Change) (w : World) : Prop where
  rows : ∀ playlistId songId, c.Asks w playlistId songId → ∃ row, (songId, row) ∈ w.db.songs.rows
  lists : ∀ call, c = .call call → call.Lists

/-- No song that an entry names is deleted. -/
structure Spares (c : Change) (w : World) : Prop extends c.Fits w where
  scan : ∀ disk dirs, c = .scan disk dirs → ∀ r ∈ w.db.songs.rows,
    (∃ playlistId, Enters w.db playlistId r.1) → Survives disk dirs w.db r
  song : ∀ song, c = destroySong song → ∀ playlistId, ¬ Enters w.db playlistId song.dbId
  dir : ∀ dir, c = destroyDir dir → dir.dbId ≠ 0 ∧ ∀ r ∈ w.db.songs.rows,
    (∃ playlistId, Enters w.db playlistId r.1) → r.2.dirId ∉ subtree w.db.musicDirs dir.dbId

theorem run_follows {c : Change} {s : Logged} (h : c.Fits s.world) :
    Follows (c.Asks s.world) s (after c.run s) := by
  have hlog : Follows (c.Asks s.world) s { s with events := c.asked s.world ++ s.events } :=
    ⟨fun _ _ => .inl, _, rfl, fun _ => .inl⟩
  refine hlog.trans ?_
  cases c with
  | scan disk dirs => exact follows_scans.rescan disk dirs _
  | destroySong song => exact follows_destroySong song _
  | destroyDir dir => exact follows_scans.destroy dir _
  | call c =>
    have hputs := c.run_puts (h.lists c rfl) s.world
    exact follows_scan _ hputs.entries hputs.songs

end Change

/-- Changes one after the other; one that raises leaves what it has done. -/
def changes (cs : List Change) (s : Logged) : Logged := cs.foldl (fun s c => after c.run s) s

/-- `C` holds of every change of a run when it is made. -/
def EachMade (C : Change → World → Prop) : List Change → Logged → Prop
  | [], _ => True
  | c :: cs, s => C c s.world ∧ EachMade C cs (after c.run s)

/-! ## Runs -/

section

variable {cs : List Change} {s : Logged} {playlistId songId : Int}

theorem changes_follow (h : EachMade Change.Fits cs s) :
    Follows (fun _ _ => True) s (changes cs s) := by
  induction cs generalizing s with
  | nil => exact .refl s
  | cons c cs ih =>
    obtain ⟨hfirst, hrest⟩ := h
    exact ((Change.run_follows hfirst).of_asked fun _ _ _ => .inr trivial).trans (ih hrest)

/-- The change behind `earlier` was to insert the row into the playlist. -/
def Wanted (cs : List Change) (s : Logged) (playlistId : Int) (r : Int × SongRow)
    (earlier : List Change) : Prop :=
  ∃ c later, cs = earlier ++ c :: later ∧ c.Asks (changes earlier s).world playlistId r.1 ∧
    r ∈ (changes earlier s).db.songs.rows

theorem Wanted.cons {c : Change} {r : Int × SongRow} {earlier : List Change}
    (h : Wanted cs (after c.run s) playlistId r earlier) :
    Wanted (c :: cs) s playlistId r (c :: earlier) := by
  obtain ⟨d, later, hcs, hd⟩ := h
  exact ⟨d, later, by rw [hcs]; rfl, hd⟩

/-- Between the states a row with the rowid was deleted. -/
def DeletedBetween (s s' : Logged) (songId : Int) : Prop :=
  ∃ since, s'.events = since ++ s.events ∧ .deleted songId ∈ since

/-- Every entry after a run was there before it, or a change was to insert it; the row that was
inserted then is there, or it has been deleted since. -/
theorem entries_traced (h : EachMade Change.Fits cs s)
    (he : Enters (changes cs s).db playlistId songId) :
    Enters s.db playlistId songId ∨ ∃ row earlier, Wanted cs s playlistId (songId, row) earlier ∧
      ((songId, row) ∈ (changes cs s).db.songs.rows ∨
        DeletedBetween (changes earlier s) (changes cs s) songId) := by
  induction cs generalizing s with
  | nil => exact .inl he
  | cons c cs ih =>
    have hall := changes_follow h
    obtain ⟨hfirst, hrest⟩ := h
    rcases ih hrest he with he | ⟨row, earlier, hwant, hend⟩
    · rcases (Change.run_follows hfirst).entries _ _ he with he | hask
      · exact .inl he
      · obtain ⟨row, hrow⟩ := hfirst.rows _ _ hask
        obtain ⟨since, hevents, hrows⟩ := hall.events
        refine .inr ⟨row, [], ⟨c, cs, rfl, hask, hrow⟩, ?_⟩
        exact (hrows _ hrow).imp_right fun hdel => ⟨since, hevents, hdel⟩
    · exact .inr ⟨row, c :: earlier, hwant.cons, hend⟩

end

/-! ## Runs that leave the songs of the playlists alone -/

theorem Sound.of_eq {db db' : Database} (h : Sound db) (hsongs : db'.songs = db.songs)
    (hdirs : db'.musicDirs = db.musicDirs) : Sound db' where
  linked := {
    dirs := by
      rw [hdirs]
      exact h.linked.dirs
    songs := by
      rw [hsongs, hdirs]
      exact h.linked.songs }
  dirs := by
    rw [hdirs]
    exact h.dirs
  songs := by
    rw [hsongs]
    exact h.songs

/-- A song that is not the deleted one stays. -/
theorem destroySong_spares {s : Logged} {song : Song} {r : Int × SongRow}
    (hr : r ∈ s.db.songs.rows) (hne : r.1 ≠ song.dbId) : r ∈ (after song.destroy s).db.songs.rows := by
  rcases destroySong_tables song s with ht | ht
  · have hdb : (after song.destroy s).db = s.db := congrArg Prod.fst ht
    rwa [hdb]
  · have hdb : (after song.destroy s).db = _ := congrArg Prod.fst ht
    rw [hdb]
    exact Table.mem_rows_deleteWhere.mpr ⟨hr, by simpa using hne⟩

/-- A song whose directory does not lie in the deleted ones stays. -/
theorem destroyDir_spares {s : Logged} (hs : Sound s.db) {dir : MusicDir} {r : Int × SongRow}
    (hr : r ∈ s.db.songs.rows) (hout : r.2.dirId ∉ subtree s.db.musicDirs dir.dbId) :
    r ∈ (after dir.destroy s).db.songs.rows := by
  cases hstale : s.world.stale with
  | true =>
    have hdb : (after dir.destroy s).db = s.db := congrArg Prod.fst (destroy_refused hstale dir)
    rwa [hdb]
  | false =>
    obtain ⟨-, hgone⟩ := MusicDir.destroy_gone hstale hs.linked.dirs
      (fun r hr => (hs.songs r hr).ne') dir
    exact (hgone.pruned.songs r).mpr ⟨hr, hout⟩

theorem destroyDir_sound {s : Logged} (hs : Sound s.db) {dir : MusicDir} (hdir : dir.dbId ≠ 0) :
    Sound (after dir.destroy s).db := by
  by_cases hrow : HasDir dir.dbId s.db
  · obtain ⟨row, hrow⟩ := hrow
    have htended := destroy_tended hs (p := row.parentId) hdir fun row' hrow' => by
      rw [Placed.row_unique hrow' hrow]
    exact htended.1.sound
  · have htended := destroy_tended hs (p := 0) hdir fun row' hrow' => (hrow ⟨row', hrow'⟩).elim
    exact htended.1.sound

namespace Change

variable {c : Change} {s : Logged}

theorem run_sound (hs : Sound s.db) (h : c.Spares s.world) : Sound (after c.run s).db := by
  change Sound (after c.exec { s with events := c.asked s.world ++ s.events }).db
  cases c with
  | scan disk dirs => exact (rescan_kept (s := ⟨s.world, _, s.passed⟩) hs disk dirs).sound
  | destroySong song =>
    exact (destroySong_tended (s := ⟨s.world, _, s.passed⟩) (p := 0) hs song).sound
  | destroyDir dir => exact destroyDir_sound (s := ⟨s.world, _, s.passed⟩) hs (h.dir dir rfl).1
  | call c =>
    have hputs := c.run_puts (h.lists c rfl) s.world
    exact hs.of_eq hputs.songs hputs.dirs

theorem run_keeps_song (hs : Sound s.db) (h : c.Spares s.world) {r : Int × SongRow}
    (hr : r ∈ s.db.songs.rows) {playlistId : Int} (he : Enters s.db playlistId r.1) :
    r ∈ (after c.run s).db.songs.rows := by
  change r ∈ (after c.exec { s with events := c.asked s.world ++ s.events }).db.songs.rows
  cases c with
  | scan disk dirs =>
    have hsurvives := h.scan disk dirs rfl r hr ⟨playlistId, he⟩
    exact (rescan_survives (s := ⟨s.world, _, s.passed⟩) hs disk dirs hsurvives).1.mem
  | destroySong song =>
    refine destroySong_spares (s := ⟨s.world, _, s.passed⟩) hr fun hid => ?_
    exact h.song song rfl playlistId (hid ▸ he)
  | destroyDir dir =>
    exact destroyDir_spares (s := ⟨s.world, _, s.passed⟩) hs hr
      ((h.dir dir rfl).2 r hr ⟨playlistId, he⟩)
  | call c =>
    have hputs := c.run_puts (h.lists c rfl) s.world
    exact hputs.songs ▸ hr

/-- Only a call of a playlist asks for songs, and it leaves the songs. -/
theorem run_songs (h : c.Fits s.world) {playlistId songId : Int}
    (ha : c.Asks s.world playlistId songId) : (after c.run s).db.songs = s.db.songs := by
  cases c with
  | call c => exact (c.run_puts (h.lists c rfl) s.world).songs
  | _ => cases ha

end Change

/-- Every entry names a song. -/
def Resolved (db : Database) : Prop :=
  ∀ playlistId songId, Enters db playlistId songId → ∃ row, (songId, row) ∈ db.songs.rows

section

variable {cs : List Change} {s : Logged} {playlistId songId : Int}

/-- Where no change deletes a song that an entry names, every entry names a song afterwards: the
row that it named before, or that a change was to insert. -/
theorem entries_kept (hs : Sound s.db) (hi : Resolved s.db) (h : EachMade Change.Spares cs s)
    (he : Enters (changes cs s).db playlistId songId) :
    ∃ row, (songId, row) ∈ (changes cs s).db.songs.rows ∧
      ((Enters s.db playlistId songId ∧ (songId, row) ∈ s.db.songs.rows) ∨
        ∃ earlier, Wanted cs s playlistId (songId, row) earlier) := by
  induction cs generalizing s with
  | nil =>
    obtain ⟨row, hrow⟩ := hi _ _ he
    exact ⟨row, hrow, .inl ⟨he, hrow⟩⟩
  | cons c cs ih =>
    obtain ⟨hfirst, hrest⟩ := h
    have hsound := Change.run_sound hs hfirst
    -- an entry after the change has its row from before it
    have hrows : ∀ playlistId songId, Enters (after c.run s).db playlistId songId →
        ∃ row, (songId, row) ∈ s.db.songs.rows ∧ (songId, row) ∈ (after c.run s).db.songs.rows ∧
          (Enters s.db playlistId songId ∨ c.Asks s.world playlistId songId) := by
      intro playlistId songId he
      rcases (Change.run_follows hfirst.toFits).entries _ _ he with he | ha
      · obtain ⟨row, hrow⟩ := hi _ _ he
        exact ⟨row, hrow, Change.run_keeps_song hs hfirst hrow he, .inl he⟩
      · obtain ⟨row, hrow⟩ := hfirst.rows _ _ ha
        refine ⟨row, hrow, ?_, .inr ha⟩
        rw [Change.run_songs hfirst.toFits ha]
        exact hrow
    have hresolved : Resolved (after c.run s).db := by
      intro playlistId songId he
      obtain ⟨row, -, hrow, -⟩ := hrows _ _ he
      exact ⟨row, hrow⟩
    obtain ⟨row, hend, ⟨he₁, hrow₁⟩ | ⟨earlier, hwant⟩⟩ := ih hsound hresolved hrest he
    · obtain ⟨row₀, hrow₀, hkept, hfrom⟩ := hrows _ _ he₁
      have hlookup := Table.lookup_eq_some.mpr hrow₁
      rw [Table.lookup_eq_some.mpr hkept] at hlookup
      obtain rfl := Option.some.inj hlookup
      exact ⟨row₀, hend, hfrom.imp (fun he₀ => ⟨he₀, hrow₀⟩) fun ha => ⟨[], c, cs, rfl, ha, hrow₀⟩⟩
    · exact ⟨row, hend, .inr ⟨c :: earlier, hwant.cons⟩⟩

end

/-! ## Size and listing -/

section

variable {w : World} {playlistId : Int}

theorem mem_joinedOf {db : Database} {j : Joined} (h : j ∈ db.joinedOf playlistId) :
    (j.songId, j.song) ∈ db.songs.rows ∧ Enters db playlistId j.songId := by
  obtain ⟨r, hr, hj⟩ := List.mem_flatMap.mp h
  obtain ⟨e, he, rfl⟩ := List.mem_map.mp hj
  obtain ⟨hentry, hid⟩ := List.mem_filter.mp he
  obtain ⟨hmem, hlist⟩ := Table.mem_select.mp hentry
  exact ⟨hr, e, hmem, by simpa using hlist, by simpa using hid⟩

/-- Where every entry names a song, each of them is joined with one. -/
theorem length_joinedOf {db : Database} (hi : Resolved db) (playlistId : Int) :
    (db.joinedOf playlistId).length = (db.entriesOf playlistId).length := by
  have hnamed : ∀ e ∈ db.entriesOf playlistId, e.2.songId ∈ db.songs.rows.map Prod.fst := by
    intro e he
    obtain ⟨hmem, hlist⟩ := Table.mem_select.mp he
    obtain ⟨row, hrow⟩ := hi playlistId e.2.songId ⟨e, hmem, by simpa using hlist, rfl⟩
    exact List.mem_map.mpr ⟨_, hrow, rfl⟩
  have hparts := Lists.flatMap_filter_perm db.songs.nodup_rowids hnamed
  rw [← hparts.length_eq, Database.joinedOf, List.length_flatMap, List.length_flatMap, List.map_map]
  simp only [List.length_map, Function.comp_def]

/-- Where every entry names a song, `size` is the number of the songs that `songs` lists, and the
playlist has an entry for each. -/
theorem lists_all (hi : Resolved w.db) (hs : w.stale = false) {env : Env} {p : PlayListFields}
    {order : Database → List Joined → Option (List Joined)}
    (horder : env.orderJoined (quoteOnly p.orderBy) = some order) (hperm : Permutes order)
    (hsize : (w.db.entriesOf p.dbId).length < 2 ^ 32) :
    ∃ l, ListsSongs env (.stored p) w 0 0 l ∧ Returns (PlayList.size (.stored p)) w l.length w ∧
      ∀ song ∈ l, Enters w.db p.dbId song.dbId := by
  obtain ⟨sorted, hsorted, hsame⟩ := hperm w.db (w.db.joinedOf p.dbId)
  obtain ⟨rs, hrs, hrows⟩ : ∃ rs, (PlayList.stored p).songsStatement env 0 0 w.complete = some rs ∧
      rs.rows w.db = some (sorted.map fun j => .ofNamedRow w.db j.songId j.song) := by
    rw [PlayList.songsStatement, PlayList.limitText, if_pos rfl, List.append_nil, horder]
    refine ⟨_, rfl, ?_⟩
    simp only [hsorted]
    rfl
  refine ⟨_, ⟨rs, songs_returns hs hrs, hrows⟩, ?_, ?_⟩
  · rw [List.length_map, hsame.length_eq, length_joinedOf hi]
    have hcount : Returns (execSelect true fun db => (db.entriesOf p.dbId).length) w
        (w.db.entriesOf p.dbId).length w := execSelect_returns hs _
    refine hcount.bind ?_
    rw [countUnsigned, if_pos hsize]
    exact ⟨rfl, rfl⟩
  · intro song hsong
    obtain ⟨j, hj, rfl⟩ := List.mem_map.mp hsong
    exact (mem_joinedOf (hsame.mem_iff.mp hj)).2

end

/-- A run in which no change deletes a song that an entry names: every entry names the row that it
named before or that a change was to insert, and `size` counts the songs that `songs` lists. -/
theorem entries_intact {cs : List Change} {s : Logged} (hs : Sound s.db) (hi : Resolved s.db)
    (h : EachMade Change.Spares cs s) :
    (∀ playlistId songId, Enters (changes cs s).db playlistId songId →
      ∃ row, (songId, row) ∈ (changes cs s).db.songs.rows ∧
        ((Enters s.db playlistId songId ∧ (songId, row) ∈ s.db.songs.rows) ∨
          ∃ earlier, Wanted cs s playlistId (songId, row) earlier)) ∧
    ∀ (env : Env) (p : PlayListFields) order, (changes cs s).world.stale = false →
      env.orderJoined (quoteOnly p.orderBy) = some order → Permutes order →
      ((changes cs s).db.entriesOf p.dbId).length < 2 ^ 32 →
        ∃ l, ListsSongs env (.stored p) (changes cs s).world 0 0 l ∧
          Returns (PlayList.size (.stored p)) (changes cs s).world l.length (changes cs s).world ∧
          ∀ song ∈ l, Enters (changes cs s).db p.dbId song.dbId := by
  have hkept : ∀ playlistId songId, Enters (changes cs s).db playlistId songId →
      ∃ row, (songId, row) ∈ (changes cs s).db.songs.rows ∧
        ((Enters s.db playlistId songId ∧ (songId, row) ∈ s.db.songs.rows) ∨
          ∃ earlier, Wanted cs s playlistId (songId, row) earlier) :=
    fun _ _ he => entries_kept hs hi h he
  refine ⟨hkept, fun env p order hstale horder hperm hsize => ?_⟩
  have hresolved : Resolved (changes cs s).db := by
    intro playlistId songId he
    obtain ⟨row, hrow, -⟩ := hkept playlistId songId he
    exact ⟨row, hrow⟩
  exact lists_all hresolved hstale horder hperm hsize

/-! ## A run -/

theorem Survives.of_eq {disk : Disk} {roots : List Bytes} {db db' : Database} {r : Int × SongRow}
    (h : Survives disk roots db r) (hsongs : db'.songs = db.songs)
    (hdirs : db'.musicDirs = db.musicDirs) : Survives disk roots db' r := by
  rcases h with ⟨hmem, helse⟩ | hmet
  · exact .inl ⟨hsongs ▸ hmem, hdirs ▸ helse⟩
  · exact .inr ⟨hsongs ▸ hmet.mem, hdirs ▸ hmet.shown, hmet.interesting, hsongs ▸ hmet.single⟩

/-- A playlist. -/
def recordList : PlayList := .stored ⟨2, lit "mine", [], lit "present_order desc", 0⟩

/-- The song of `rootWithSong` is put into the playlist. -/
def recordCall : Change := .call (.insertSong recordList (.ofRow 1 recordSong.2) 0)

/-- A rescan follows. -/
def recordRun : List Change := [recordCall, .scan recordDisk [lit "/music"]]

theorem recordCall_fits (w : World) (hw : w.db.songs = rootWithSong.songs) : recordCall.Fits w where
  rows playlistId songId ha := by
    cases List.mem_singleton.mp ha
    exact ⟨recordSong.2, hw ▸ recordSong_mem⟩
  lists call hcall := by
    cases hcall
    trivial

theorem recordRun_spares (h : coerce (lit "/music") = lit "/music") :
    EachMade Change.Spares recordRun (.start (.start rootWithSong)) := by
  have hputs := ListCall.run_puts (c := .insertSong recordList (.ofRow 1 recordSong.2) 0) trivial
    (.start rootWithSong)
  refine ⟨⟨recordCall_fits _ rfl, ?_, ?_, ?_⟩, ⟨⟨?_, ?_⟩, ?_, ?_, ?_⟩, trivial⟩
  · intro disk dirs hc
    cases hc
  · intro song hc
    cases hc
  · intro dir hc
    cases hc
  · intro playlistId songId ha
    cases ha
  · intro call hc
    cases hc
  · intro disk dirs hc r hr _
    cases hc
    have hsurvives : Survives recordDisk [lit "/music"] rootWithSong recordSong :=
      .inr (recordSong_met h)
    have hrow : r ∈ rootWithSong.songs.rows := hputs.songs ▸ hr
    obtain rfl : r = recordSong := List.mem_singleton.mp hrow
    exact hsurvives.of_eq hputs.songs hputs.dirs
  · intro song hc
    cases hc
  · intro dir hc
    cases hc

omit [Affinity] in
/-- The entry of the song that was put into the playlist comes from this call. -/
theorem record_traced : ∃ _ : Affinity, Enters rootWithSong 2 1 ∨ ∃ row earlier,
    Wanted [recordCall] (.start (.start rootWithSong)) 2 (1, row) earlier ∧
      ((1, row) ∈ (changes [recordCall] (.start (.start rootWithSong))).db.songs.rows ∨
        DeletedBetween (changes earlier (.start (.start rootWithSong)))
          (changes [recordCall] (.start (.start rootWithSong))) 1) := by
  let _ : Affinity := integerAffinity
  have hfits : EachMade Change.Fits [recordCall] (.start (.start rootWithSong)) :=
    ⟨recordCall_fits _ rfl, trivial⟩
  have hentry : Enters (changes [recordCall] (.start (.start rootWithSong))).db 2 1 :=
    ⟨(1, ⟨0, 1, 2⟩), List.mem_singleton.mpr rfl, rfl, rfl⟩
  have h := entries_traced hfits hentry
  exact ⟨_, h⟩

omit [Affinity] in
/-- The rescan leaves the song, and the entry names it. -/
theorem record_intact : ∃ _ : Affinity,
    Resolved (changes recordRun (.start (.start rootWithSong))).db := by
  let _ : Affinity := integerAffinity
  have hempty : Resolved rootWithSong := by
    rintro playlistId songId ⟨r, hr, -⟩
    cases hr
  have h := (entries_intact (s := .start (.start rootWithSong)) rootWithSong_sound hempty
    (recordRun_spares (by decide))).1
  have hnamed : Resolved (changes recordRun (.start (.start rootWithSong))).db := by
    intro playlistId songId he
    obtain ⟨row, hrow, -⟩ := h playlistId songId he
    exact ⟨row, hrow⟩
  exact ⟨_, hnamed⟩

end Spinny

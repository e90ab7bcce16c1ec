import Spinny.Frame
import Spinny.Handlers.StatusLines

/-!
# What a request changes

The handlers query the tables, with three exceptions: `PL` writes the two tables of the playlists,
`Users` writes `users` for an administrator, and a login and the greeting of a user write the
ticket and the last visit of a user.

* `Shows`: what queries and what writes output keeps.
* `Visits`: what a login and the greeting of a user write.
* `respond_library`, `respond_lists`, `respond_visits`: what a request leaves alone.
-/

namespace Handlers

open Bytes Boost Spinny Sqlite Ews Proc

variable [Affinity] {ε α β : Type} {env : Env} {req : Request}

/-! ## Code that queries and writes output -/

/-- `R` holds between the ends of a query and of what writes output. -/
structure Shows (R : World → World → Prop) : Prop where
  reads : ∀ {ε α : Type} {x : Proc World ε α}, ReadsOnly x → Keeps R x
  put : ∀ t : Bytes, Keeps R (Spinny.put t)
  setHdfValue : ∀ (key : Bytes) (value : HdfValue), Keeps R (Spinny.setHdfValue key value)

theorem shows_stored : Shows (Same stored) :=
  ⟨fun h => h.queries, fun _ => Queries.put _, fun _ _ => Queries.setHdfValue _ _⟩

namespace Shows

variable {R : World → World → Prop} [Std.Refl R] [IsTrans World R]

theorem putChain (h : Shows R) (env : Env) (operands : List (Act Bytes))
    (hx : ∀ x ∈ operands, Keeps R x) : Keeps R (Spinny.putChain env operands) := by
  unfold Spinny.putChain
  split
  · exact (Keeps.mapM _ hx).bind fun _ => h.put _
  · induction operands with
    | nil => exact Keeps.pure _
    | cons x xs ih =>
      exact ((hx x (by simp)).bind fun _ => h.put _).bind fun _ => ih fun y hy => hx y (by simp [hy])

theorem putEach {write : Bytes → α → Act Unit} (hw : ∀ t a, Keeps R (write t a)) (used : Bool)
    (rows : List α) : Keeps R (Spinny.putEach write used rows) :=
  Keeps.foldlM rows (fun _ _ => (hw _ _).bind fun _ => Keeps.pure _) used

/-- A list that is loaded and written. -/
theorem listed (h : Shows R) {x : Act (List α)} {write : Bytes → α → Act Unit} (hx : ReadsOnly x)
    (hw : ∀ t a, Keeps R (write t a)) :
    Keeps R (do let _ ← Spinny.putEach write false (← x)) :=
  (h.reads hx).bind fun _ => (putEach hw _ _).bind fun _ => Keeps.pure _

theorem insertEach {write : Nat → α → Act Unit} (hw : ∀ n a, Keeps R (write n a)) (num : Nat)
    (rows : List α) : Keeps R (Index.insertEach write num rows) := Keeps.forM _ fun _ => hw _ _

/-! ### `Tree` and `Info` -/

theorem tree_dir (h : Shows R) : Keeps R (Tree.dir req) := by
  have hdir : ∀ before md, Keeps R (Tree.insertDir before md) := fun _ _ =>
    (h.reads (.execSelect _ _)).bind fun _ => (h.reads (.execSelect _ _)).bind fun _ => h.put _
  unfold Tree.dir
  refine (h.reads (.cast _)).bind fun dirId => (h.reads (.loadRows _ _)).bind fun rs =>
    Keeps.bind ?_ fun _ => ?_
  · split
    · split
      · exact h.reads (.loadRows _ _)
      · exact Keeps.pure _
    · exact Keeps.pure _
  · refine (putEach hdir _ _).bind fun _ => ?_
    split
    · exact (h.reads (.musicDir_load _)).bind fun _ => (h.reads (.songsWhere _ _)).bind fun _ =>
        (putEach (fun _ _ => h.put _) _ _).bind fun _ => Keeps.pure _
    · exact Keeps.pure _

theorem tree_artists (h : Shows R) : Keeps R Tree.artists := by
  unfold Tree.artists
  refine (h.reads (.execSelect _ _)).bind fun _ => ?_
  split
  · exact h.listed (startingChars_reads _) fun _ _ => h.put _
  · exact h.listed (.loadRows _ _) fun _ _ => h.put _

theorem tree_node (h : Shows R) (letter : UInt8) (rest : Bytes) : Keeps R (Tree.node letter rest) := by
  unfold Tree.node
  split
  · exact h.listed (.loadRows _ _) fun _ _ => h.put _
  · split
    · exact (h.reads (.cast _)).bind fun _ => (h.reads (.artist_load _)).bind fun _ =>
        h.listed (.loadRows _ _) fun _ _ => h.put _
    · split
      · exact (h.reads (.cast _)).bind fun _ => (h.reads (.album_load _)).bind fun _ =>
          h.listed (.songsWhere _ _) fun _ _ => h.put _
      · exact Keeps.pure _

theorem tree_answer (h : Shows R) : Keeps R (Tree.answer req) := by
  unfold Tree.answer
  split
  · exact h.tree_dir
  · split
    · unfold Tree.tag
      dsimp only
      split
      · exact h.tree_artists
      · split
        · exact h.tree_node _ _
        · exact Keeps.throw _
    · exact Keeps.pure _

theorem info_song (h : Shows R) : Keeps R (Info.songInfo req) := by
  refine (h.reads (.cast _)).bind fun _ => (h.reads (.song_load _)).bind fun _ => ?_
  split
  · exact (h.reads (.artist_load _)).bind fun _ => h.put _
  · exact Keeps.pure _

theorem info_find (h : Shows R) : Keeps R (Info.find env req) := by
  refine (h.reads (.cast _)).bind fun _ => (h.reads (.cast _)).bind fun _ =>
    (h.reads (.loadStored _)).bind fun _ => Keeps.bind (h.putChain _ _ ?_) fun _ => ?_
  · have hcount : ReadsOnly (Spinny.Song.numMatching (req.svalue (lit "q"))) :=
      (ReadsOnly.execSelect _ _).bind fun _ => ReadsOnly.countUnsigned _
    simp only [List.forall_mem_cons, Keeps.pure, true_and]
    exact ⟨(h.reads hcount).bind fun _ => Keeps.pure _, List.forall_mem_nil _⟩
  · exact (h.reads (.begin _)).bind fun _ =>
      (putEach (fun _ _ => h.put _) _ _).bind fun _ => h.put _

theorem info_answer (h : Shows R) : Keeps R (Info.answer env req) := by
  unfold Info.answer
  split
  · exact h.info_song
  · split
    · exact h.info_find
    · exact Keeps.pure _

/-! ### `Index` -/

theorem insertDirs (h : Shows R) : Keeps R Index.hdfInsertDirs := by
  have hdir : ∀ n md, Keeps R (Index.insertDir n md) := fun n md =>
    (h.reads (.execSelect _ _)).bind fun _ => (h.reads (.execSelect _ _)).bind fun _ => h.put _
  unfold Index.hdfInsertDirs
  refine (h.put _).bind fun _ => (h.reads (.loadRows _ _)).bind fun dirs => ?_
  split
  · exact (h.reads (.loadRows _ _)).bind fun _ => (insertEach hdir _ _).bind fun _ =>
      (h.reads (.songsWhere _ _)).bind fun _ =>
        (insertEach (fun _ _ => h.put _) _ _).bind fun _ => h.put _
  · exact (insertEach hdir _ _).bind fun _ => h.put _

/-- A list of names, or of their starting characters. -/
theorem insertNames (h : Shows R) {count : Act Nat} {chars : Act (List (UInt8 × Nat))}
    {all : Act (List α)} {write : Nat → α → Act Unit} {type : UInt8} (hcount : ReadsOnly count)
    (hchars : ReadsOnly chars) (hall : ReadsOnly all) (hw : ∀ n a, Keeps R (write n a))
    (head : Bytes) :
    Keeps R (do
      Spinny.put head
      if 100 < (← count) then Index.insertChars type (← chars)
      else Index.insertEach write 0 (← all)
      Spinny.put (lit "\x7d\n")) := by
  refine (h.put _).bind fun _ => (h.reads hcount).bind fun n => ?_
  dsimp only
  split
  · exact (h.reads hchars).bind fun _ =>
      (insertEach (fun _ _ => h.put _) _ _).bind fun _ => h.put _
  · exact (h.reads hall).bind fun _ => (insertEach hw _ _).bind fun _ => h.put _

/-- The page behind its template. -/
theorem fullPage (h : Shows R) (htmpl : Keeps R (modifyRep fun rep => rep.setTemplate (lit "full.html")))
    (user : User) : Keeps R (Index.fullPage user) := by
  have halbums : Keeps R Index.hdfInsertAlbums :=
    h.insertNames (.execSelect _ _) (startingChars_reads _) (.loadRows _ _)
      (fun _ _ => (h.reads (.execSelect _ _)).bind fun _ => h.put _) _
  have hartists : Keeps R Index.hdfInsertArtists :=
    h.insertNames (.execSelect _ _) (startingChars_reads _) (.loadRows _ _)
      (fun _ _ => (h.reads (.execSelect _ _)).bind fun _ => h.put _) _
  exact htmpl.bind fun _ => h.insertDirs.bind fun _ => halbums.bind fun _ => hartists.bind fun _ =>
    (h.setHdfValue _ _).bind fun _ => (h.reads (.execSelect _ _)).bind fun _ =>
    (h.setHdfValue _ _).bind fun _ => (h.reads (.execSelect _ _)).bind fun _ =>
    (h.setHdfValue _ _).bind fun _ => (h.reads (.execSelect _ _)).bind fun _ => h.setHdfValue _ _

/-! ### `Xspf`, `Song` and `PL` -/

theorem xspf_song (h : Shows R) (num : Nat) (song : Spinny.Song) :
    Keeps R (Xspf.putSong env req num song) := by
  unfold Xspf.putSong
  split
  · exact Keeps.throw _
  · refine Keeps.adapt (h.putChain _ _ ?_) _
    simp only [List.forall_mem_cons, Keeps.pure, true_and]
    exact ⟨(h.reads (.nameOfAlbum _)).bind fun _ => Keeps.pure _,
      (h.reads (.nameOfArtist _)).bind fun _ => Keeps.pure _, List.forall_mem_nil _⟩

theorem checkTicket_reads : ReadsOnly (Song.checkTicket env req) := by
  unfold Song.checkTicket
  refine (ReadsOnly.loadOne _ _).bind fun _ => (ReadsOnly.localTime _).bind fun _ => ?_
  split
  · exact Keeps.throw _
  · exact Keeps.pure _

theorem listed_song (h : Shows R) (before : Bytes) (song : Spinny.Song) :
    Keeps R (PL.putSong env before song) := by
  refine h.putChain _ _ ?_
  simp only [List.forall_mem_cons, Keeps.pure, true_and]
  exact ⟨(h.reads (.nameOfArtist _)).bind fun _ => Keeps.pure _,
    (h.reads (.nameOfAlbum _)).bind fun _ => Keeps.pure _, List.forall_mem_nil _⟩

end Shows

/-! ## Handlers that only query -/

theorem idValue_queries (name : Bytes) : Queries (idValue req name) := .cast _

theorem unsignedValue_queries (name : Bytes) : Queries (unsignedValue req name) := .cast _

theorem tree_queries : Queries (Tree.handle req) := by
  unfold Tree.handle
  split
  · exact Keeps.pure _
  · exact (Queries.put _).bind fun _ => shows_stored.tree_answer.bind fun _ =>
      (Queries.put _).bind fun _ => (Queries.modifyRep _).bind fun _ => Keeps.pure _

theorem info_queries : Queries (Info.handle env req) := by
  unfold Info.handle
  split
  · exact Keeps.pure _
  · exact shows_stored.info_answer.bind fun _ => (Queries.modifyRep _).bind fun _ => Keeps.pure _

theorem index_queries : Queries (Index.handle req) := by
  unfold Index.handle
  split
  · exact Keeps.pure _
  · refine (Queries.modifyRep _).run.bind fun _ => ?_
    split
    · exact Keeps.throw _
    · refine Keeps.bind (Queries.run ?_) fun _ => Keeps.pure _
      unfold Index.page
      split
      · exact shows_stored.fullPage (Queries.modifyRep _) _
      · exact Keeps.pure _

theorem xspf_queries : Queries (Xspf.handle env req) := by
  unfold Xspf.handle
  split
  · exact Keeps.pure _
  · unfold Xspf.putPlayList
    refine (Queries.modifyRep _).run.bind fun _ => (Queries.cast _).run.bind fun _ =>
      (Queries.playList_load _).run.bind fun _ => (Queries.modifyRep _).run.bind fun _ => ?_
    refine (Queries.fields _).run.bind fun _ => (Queries.setHdfValue _ _).run.bind fun _ =>
      (Queries.setHdfValue _ _).run.bind fun _ => (Queries.put _).run.bind fun _ =>
      (Queries.songs _ _ _ _).run.bind fun _ => (Queries.begin _).run.bind fun _ => ?_
    exact (Keeps.forM _ fun _ => shows_stored.xspf_song _ _).bind fun _ =>
      (Queries.put _).run.bind fun _ => Keeps.pure _

theorem song_queries : Queries (Song.handle env req) := by
  have hdownload : ∀ song, Queries (Song.download env song) := by
    intro song
    unfold Song.download
    refine (Queries.modifyRep _).run.bind fun _ => (ReadsOnly.songPath _).queries.bind fun _ => ?_
    split
    · exact Keeps.throw _
    · exact (Queries.put _).run.bind fun _ => (Queries.modifyRep _).run
  unfold Song.handle
  split
  · exact Keeps.pure _
  · split
    · exact Keeps.throw _
    · refine Shows.checkTicket_reads.queries.run.bind fun _ => (Queries.cast _).run.bind fun _ =>
        (Queries.song_load _).run.bind fun _ => ?_
      split
      · exact (hdownload _).bind fun _ => Keeps.pure _
      · exact Keeps.pure _

theorem files_queries : Queries (Files.handle env req) := by
  have hsend : ∀ path, Queries (Files.send env req path) := by
    intro path
    unfold Files.send
    split
    · exact Keeps.throw _
    · exact (Queries.modifyRep _).bind fun _ => (Queries.put _).bind fun _ =>
        (Queries.modifyRep _).bind fun _ => Keeps.pure _
  unfold Files.handle
  split
  · exact Keeps.throw _
  · split
    · exact Keeps.throw _
    · exact (hsend _).run

/-! ## `PL` -/

/-- All tables but those of the playlists. -/
def exceptLists (db : Database) : Database := { db with playlists := .empty, playlistSongs := .empty }

/-- Code that writes the tables of the playlists at most. -/
abbrev WritesLists (x : Proc World ε α) : Prop := Keeps (Same fun w => exceptLists w.db) x

namespace WritesLists

theorem of_queries {x : Proc World ε α} (h : Queries x) : WritesLists x :=
  h.same_of fun s => exceptLists s.1

theorem of_entries {x : Proc World ε α} (h : EntriesOnly x) : WritesLists x :=
  h.same_of fun s => { s.1.1 with playlists := .empty }

theorem mapPlayLists (accepted : Bool) (f : Table PlayListRow → Table PlayListRow) :
    WritesLists (execUpdate accepted (.mapPlayLists f)) := by
  intro w
  rw [Same, after_execUpdate]
  split <;> rfl

theorem save (pl : PlayList) : WritesLists pl.save := by
  have hrow : ∀ p : PlayListFields, WritesLists p.save := by
    intro p
    refine Keeps.get.bind fun _ => Keeps.bind ?_ fun _ => Keeps.pure _
    cases p.toRow with
    | none => exact mapPlayLists false id
    | some row => exact mapPlayLists true _
  refine (of_queries (.fields _)).bind fun p => (hrow p).bind fun _ => ?_
  cases pl with
  | stored _ => exact Keeps.pure _
  | complete => exact fun _ => rfl

theorem setOrder (pl : PlayList) (order : Bytes) (descending : Bool) :
    WritesLists (pl.setOrder order descending) := by
  cases pl with
  | stored p =>
    unfold PlayList.setOrder
    dsimp only
    split
    · exact Keeps.pure _
    · exact (save _).bind fun _ => Keeps.pure _
  | complete => exact fun _ => rfl

theorem setName (pl : PlayList) (name : Bytes) : WritesLists (pl.setName name) := by
  cases pl with
  | stored p => exact Keeps.pure _
  | complete => exact fun _ => rfl

theorem setDescription (pl : PlayList) (description : Bytes) :
    WritesLists (pl.setDescription description) := by
  cases pl with
  | stored p => exact Keeps.pure _
  | complete => exact fun _ => rfl

theorem forDigitVars {f : Int → Int → Act Unit} (hf : ∀ id order, WritesLists (f id order)) :
    WritesLists (PL.forDigitVars req f) :=
  Keeps.forM _ fun _ => (of_queries (.cast _)).bind fun _ =>
    (of_queries (.cast _)).bind fun _ => hf _ _

end WritesLists

theorem list_writes (pl : PlayList) : WritesLists (PL.list env req pl) := by
  have horder : WritesLists (PL.reorderBy req pl) := by
    unfold PL.reorderBy
    split
    · exact WritesLists.setOrder _ _ _
    · exact Keeps.pure _
  refine horder.bind fun pl => WritesLists.of_queries ?_
  refine (idValue_queries _).bind fun _ => (idValue_queries _).bind fun _ =>
    (Queries.songs _ _ _ _).bind fun _ => (Queries.put _).bind fun _ =>
    (Queries.begin _).bind fun _ =>
    (Queries.putEach (fun _ _ => shows_stored.listed_song _ _) _ _).bind fun _ =>
    Queries.putChain _ _ ?_
  simp only [List.forall_mem_cons, Keeps.pure, true_and]
  exact ⟨(Queries.size _).bind fun _ => Keeps.pure _, List.forall_mem_nil _⟩

theorem addSomething_writes (pl : PlayList) (type : Bytes) (id pos : Int) :
    EntriesOnly (PL.addSomething env pl type id pos) := by
  unfold PL.addSomething
  split
  · exact (ReadsOnly.song_load _).entriesOnly.bind fun _ => PlayList.insertSong_writes _ _ _
  · split
    · exact (ReadsOnly.musicDir_load _).entriesOnly.bind fun _ => PlayList.insertDir_writes _ _ _
    · split
      · exact (ReadsOnly.artist_load _).entriesOnly.bind fun _ =>
          PlayList.insertArtist_writes _ _ _
      · split
        · exact (ReadsOnly.playList_load _).entriesOnly.bind fun _ =>
            PlayList.insertPlayList_writes _ _ _ _
        · exact Keeps.pure _

/-- The sub-commands that write `playlist_songs` at most. -/
theorem entries_writes (pl : PlayList) : EntriesOnly (PL.addSongs req pl) ∧
    EntriesOnly (PL.add env req pl) ∧ EntriesOnly (PL.rm req pl) ∧
      EntriesOnly (PL.addPl env req pl) := by
  have hid : ∀ name, EntriesOnly (idValue req name) := fun _ => (ReadsOnly.cast _).entriesOnly
  have hcast : ∀ x : Option Int, EntriesOnly (Spinny.cast x) :=
    fun _ => (ReadsOnly.cast _).entriesOnly
  refine ⟨?_, ?_, ?_, ?_⟩
  · unfold PL.addSongs
    split
    · exact Keeps.pure _
    · exact (hid _).bind fun _ => Keeps.forM _ fun _ => (hcast _).bind fun _ =>
        (ReadsOnly.loadSong _).entriesOnly.bind fun _ => PlayList.insertSong_writes _ _ _
  · exact (hid _).bind fun _ => (hid _).bind fun _ => addSomething_writes _ _ _ _
  · exact (hid _).bind fun _ => PlayList.remove_writes _ _
  · unfold PL.addPl
    split
    · exact Keeps.pure _
    · exact Keeps.forM _ fun _ => (hcast _).bind fun _ =>
        (ReadsOnly.playList_load _).entriesOnly.bind fun _ => (hid _).bind fun _ =>
          PlayList.insertPlayList_writes _ _ _ _

theorem songs_writes : WritesLists (PL.songs env req) := by
  unfold PL.songs
  refine (WritesLists.of_queries (idValue_queries _)).bind fun _ =>
    (WritesLists.of_queries (.playList_load _)).bind fun pl => ?_
  obtain ⟨haddSongs, hadd, hrm, haddPl⟩ := @entries_writes _ env req pl
  split
  · exact list_writes _
  · split
    · exact (WritesLists.forDigitVars fun _ _ => WritesLists.of_entries (PlayList.setSongOrder_writes _ _ _)).bind
        fun _ => (WritesLists.setOrder _ _ _).bind fun _ => Keeps.pure _
    · split
      · exact WritesLists.of_entries haddSongs
      · split
        · exact WritesLists.of_entries hadd
        · split
          · exact WritesLists.of_entries hrm
          · split
            · exact WritesLists.of_entries haddPl
            · exact Keeps.pure _

theorem update_writes : WritesLists (PL.update req) := by
  have hupdated : Queries (PL.updated req) := by
    unfold PL.updated
    split
    · exact (Queries.execText _).bind fun _ => Keeps.pure _
    · exact (idValue_queries _).bind fun _ => Queries.playList_load _
  refine (WritesLists.of_queries hupdated).bind fun pl => ?_
  dsimp only
  split
  · exact (WritesLists.setName _ _).bind fun _ => WritesLists.save _
  · exact (WritesLists.setDescription _ _).bind fun _ => WritesLists.save _

theorem pl_writes : WritesLists (PL.handle env req) := by
  have hanswer : WritesLists (PL.answer env req) := by
    unfold PL.answer
    split
    · exact songs_writes
    · split
      · exact WritesLists.of_queries ((Queries.put _).bind fun _ => (Queries.loadRows _ _).bind fun _ =>
          (Queries.putEach (fun _ _ => Queries.put _) _ _).bind fun _ => Queries.put _)
      · split
        · exact update_writes
        · split
          · exact WritesLists.forDigitVars fun _ _ => WritesLists.mapPlayLists _ _
          · exact Keeps.pure _
  unfold PL.handle
  split
  · exact Keeps.pure _
  · exact hanswer.bind fun _ => (WritesLists.of_queries (.modifyRep _)).bind fun _ => Keeps.pure _

/-! ## `Users` -/

/-- All tables but `users`. -/
def exceptUsers (db : Database) : Database := { db with users := .empty }

/-- Code that writes `users` at most. -/
abbrev WritesUsers (x : Proc World ε α) : Prop := Keeps (Same fun w => exceptUsers w.db) x

theorem WritesUsers.of_queries {x : Proc World ε α} (h : Queries x) : WritesUsers x :=
  h.same_of fun s => exceptUsers s.1

theorem WritesUsers.mapUsers (accepted : Bool) (f : Table UserRow → Table UserRow) :
    WritesUsers (execUpdate accepted (.mapUsers f)) := by
  intro w
  rw [Same, after_execUpdate]
  split <;> rfl

theorem saveUser_writes (u : User) : WritesUsers u.save := by
  unfold User.save
  cases u.toRow with
  | none => exact WritesUsers.mapUsers false id
  | some row => exact WritesUsers.mapUsers true _

theorem saveOne_writes (json : JsonUser) : WritesUsers (Users.saveOne env json) := by
  have hconv : ∀ {α : Type} (x : Option α), WritesUsers (Users.converted x) := by
    intro α x
    cases x
    · exact Keeps.throw _
    · exact Keeps.pure _
  have hcast : ∀ role, WritesUsers (Spinny.cast (toInt role)).run :=
    fun role => WritesUsers.of_queries (Queries.cast _).run
  have hsave : ∀ u : User, WritesUsers (User.save u).run := fun u => (saveUser_writes u).adapt _
  unfold Users.saveOne
  refine (hconv _).bind fun uid => (hconv _).bind fun login => (hconv _).bind fun password =>
    (hconv _).bind fun role => ?_
  split
  · exact (WritesUsers.of_queries (Queries.user_load _).run).bind fun _ => (hcast _).bind fun _ =>
      hsave _
  · exact (WritesUsers.of_queries (Queries.user_create _ _ _).run).bind fun _ =>
      (hcast _).bind fun _ => hsave _

theorem answer_writes : WritesUsers (Users.answer env req) := by
  unfold Users.answer
  split
  · refine WritesUsers.of_queries (Queries.run ?_)
    unfold Users.list
    refine (Queries.localTime _).bind fun _ => (unsignedValue_queries _).bind fun _ =>
      (unsignedValue_queries _).bind fun _ => (Queries.loadRows _ _).bind fun _ =>
      (Queries.put _).bind fun _ => ?_
    exact (Queries.putEach (fun _ _ => Queries.put _) _ _).bind fun _ => Queries.put _
  · split
    · have hdel : WritesUsers (Users.del req) := by
        unfold Users.del
        refine (WritesUsers.of_queries (idValue_queries _)).bind fun _ =>
          (WritesUsers.of_queries (Queries.user_load _)).bind fun user => ?_
        unfold User.destroy
        split
        · exact WritesUsers.mapUsers _ _
        · exact Keeps.pure _
      exact hdel.adapt _
    · split
      · unfold Users.save
        dsimp only
        split
        · exact Keeps.throw _
        · exact Keeps.forM _ fun _ => saveOne_writes _
      · exact Keeps.pure _

theorem users_writes : WritesUsers (Users.handle env req) := by
  have hauth : WritesUsers (requireAuth req.user User.adminRole) := by
    unfold requireAuth
    split
    · exact Keeps.throw _
    · split
      · exact Keeps.pure _
      · exact Keeps.throw _
  unfold Users.handle
  split
  · exact Keeps.pure _
  · refine hauth.bind fun _ => (WritesUsers.of_queries (Queries.modifyRep _).run).bind fun _ =>
      Keeps.bind ?_ fun _ => Keeps.pure _
    exact answer_writes

/-- Whoever is no administrator changes nothing. -/
theorem users_guarded (h : ∀ u, req.user = some u → u.hasAtLeast User.adminRole = false) :
    Queries (Users.handle env req) := by
  unfold Users.handle
  split
  · exact Keeps.pure _
  · intro w
    have hauth : ∃ e, outcome (requireAuth req.user User.adminRole) w = .error e ∧
        after (requireAuth req.user User.adminRole) w = w := by
      cases hu : req.user with
      | none => exact ⟨_, rfl, rfl⟩
      | some u =>
        unfold requireAuth
        simp only [h u hu]
        exact ⟨_, rfl, rfl⟩
    obtain ⟨e, ho, hafter⟩ := hauth
    rw [Same, after_bind_error ho, hafter]

/-! ## Logins and greetings -/

/-- No user has the rowid 0. -/
def Numbered (t : Table UserRow) : Prop := ∀ r ∈ t.rows, r.1 ≠ 0

/-- One change of `users` that needs no administrator. -/
inductive UserStep (env : Env) (req : Request) (t : Table UserRow) : Table UserRow → Prop where
  /-- A login with the right password: the user gets a new ticket, and its login and its password
  are written back. -/
  | login {id : Int} {row : UserRow} (n : Nat) (hn : nulFree (env.ticketLetters n) = true) :
    req.u2 = lit "validate" → (id, row) ∈ t.rows →
      row.login.cell = store (req.svalue (lit "login")) →
      row.password.val = req.svalue (lit "pass") →
      UserStep env req t (t.updateWhere (fun i _ => i == id) fun r =>
        { r with
          login := r.login.resaved
          password := r.password.resaved
          ticket := .ofLiteral (env.ticketLetters n) hn })
  /-- A greeting: the last visit is now. -/
  | greet (id now : Int) : UserStep env req t (t.updateWhere (fun i _ => i == id) fun r =>
      { r with lastVisit := now })

/-- Changes of `users` that need no administrator. -/
abbrev UserSteps (env : Env) (req : Request) : Table UserRow → Table UserRow → Prop :=
  Relation.ReflTransGen (UserStep env req)

theorem UserStep.rowids {t t' : Table UserRow} (h : UserStep env req t t') :
    t'.rows.map Prod.fst = t.rows.map Prod.fst := by
  cases h with
  | login => exact Table.rowids_updateWhere _ _ _
  | greet => exact Table.rowids_updateWhere _ _ _

theorem UserSteps.rowids {t t' : Table UserRow} (h : UserSteps env req t t') :
    t'.rows.map Prod.fst = t.rows.map Prod.fst := by
  induction h with
  | refl => rfl
  | tail _ hstep ih => exact hstep.rowids.trans ih

theorem Numbered.of_rowids {t t' : Table UserRow} (h : Numbered t)
    (hids : t'.rows.map Prod.fst = t.rows.map Prod.fst) : Numbered t' := by
  intro r hr
  have hmem : r.1 ∈ t.rows.map Prod.fst := hids ▸ List.mem_map_of_mem hr
  obtain ⟨q, hq, hid⟩ := List.mem_map.mp hmem
  exact hid ▸ h q hq

/-- `users` is changed in this way at most, where no user has the rowid 0. -/
def Visits (env : Env) (req : Request) (w w' : World) : Prop :=
  Numbered w.db.users → UserSteps env req w.db.users w'.db.users

instance : Std.Refl (Visits env req) := ⟨fun _ _ => .refl⟩

instance : IsTrans World (Visits env req) :=
  ⟨fun _ _ _ h h' hnum => (h hnum).trans (h' (hnum.of_rowids (h hnum).rowids))⟩

theorem visits_of_users {w w' : World} (h : w'.db.users = w.db.users) : Visits env req w w' := by
  intro _
  rw [h]

theorem visits_of_queries {x : Proc World ε α} (h : Queries x) : Keeps (Visits env req) x :=
  fun w => visits_of_users (congrArg (fun s => s.1.users) (h w))

/-- A query before something else. -/
theorem visits_bind_of {x : Proc World ε α} {f : α → Proc World ε β} (hx : Queries x) (w : World)
    (hf : ∀ a, outcome x w = .ok a → Visits env req (after x w) (after (f a) (after x w))) :
    Visits env req w (after (x >>= f) w) := by
  have hfirst : Visits env req w (after x w) := visits_of_queries hx w
  cases ho : outcome x w with
  | ok a =>
    rw [after_bind_ok ho]
    exact IsTrans.trans _ _ _ hfirst (hf a ho)
  | error e =>
    rw [after_bind_error ho]
    exact hfirst

/-- The user of a login has a row with it. -/
theorem of_withLogin_ok {login : Bytes} {u : User} {w : World}
    (h : outcome (User.withLogin login) w = .ok u) : ∃ row, (u.dbId, row) ∈ w.db.users.rows ∧
      row.login.cell = store login ∧ u = User.ofRow u.dbId row := by
  rw [User.withLogin, User.loadWhere, outcome_loadOne] at h
  split at h
  · cases h
  · split at h
    · rename_i u' us hus
      have hmem : u' ∈ (w.db.users.select fun _ u => u.login.eqLiteral login).map fun r =>
          User.ofRow r.1 r.2 := hus ▸ List.mem_cons_self
      obtain ⟨r, hr, rfl⟩ := List.mem_map.mp hmem
      obtain rfl := Except.ok.inj h
      obtain ⟨hr, hlogin⟩ := Table.mem_select.mp hr
      exact ⟨r.2, hr, by simpa [Text.eqLiteral] using hlogin, rfl⟩
    · cases h

/-- `save` of a user that was loaded and got a ticket. -/
theorem save_ticketed {t : Table UserRow} {id : Int} {row : UserRow} (hrow : (id, row) ∈ t.rows)
    (hid : id ≠ 0) {db : Database} (hdb : db.users = t) {ticket : Bytes}
    (hn : nulFree ticket = true) :
    ∃ row', User.toRow { User.ofRow id row with ticket } = some row' ∧
      User.saved { User.ofRow id row with ticket } row' db =
        { db with users := t.updateWhere (fun i _ => i == id) fun r =>
          { r with
            login := r.login.resaved
            password := r.password.resaved
            ticket := .ofLiteral ticket hn } } := by
  refine ⟨_, dif_pos ⟨row.login.nulFree_val, row.password.nulFree_val, hn⟩, ?_⟩
  unfold User.saved Database.mapUsers
  simp only [hdb]
  rw [if_neg (show (User.ofRow id row).dbId ≠ 0 from hid)]
  congr 1
  refine Table.ext (List.map_congr_left fun r hr => ?_)
  by_cases hr' : r.1 = id
  · have hsame : r.2 = row := by
      have hlookup := Table.lookup_eq_some.mpr (hr' ▸ hr : (id, r.2) ∈ t.rows)
      rw [Table.lookup_eq_some.mpr hrow] at hlookup
      exact (Option.some.inj hlookup).symm
    simp only [User.ofRow, hr', beq_self_eq_true, if_true, hsame, Text.resaved]
  · simp only [User.ofRow, beq_iff_eq, hr', if_false]

/-- `authen` of a user that was loaded for its login. -/
theorem authen_visits {w : World} {u : User} {row : UserRow} (hval : req.u2 = lit "validate")
    (hrow : (u.dbId, row) ∈ w.db.users.rows)
    (hlogin : row.login.cell = store (req.svalue (lit "login"))) (hu : u = User.ofRow u.dbId row) :
    Visits env req w (after (u.authen env (req.svalue (lit "pass"))) w) := by
  unfold User.authen
  split
  · rename_i hpass
    intro hnum
    set w₁ : World := { w with readings := w.readings + 1 } with hw₁
    have hsave : after (do
        let ticket ← newTicket env
        let u := { u with ticket }
        u.save
        return some u : Act (Option User)) w =
          after (User.save { u with ticket := env.ticketLetters w.readings }) w₁ := by
      rw [after_bind_ok (a := env.ticketLetters w.readings) rfl]
      rw [after_bind]
      split <;> rfl
    rw [hsave, User.save, after_execUpdate]
    split
    · exact .refl
    · rename_i hgood
      have hn : nulFree (env.ticketLetters w.readings) = true := by
        by_contra hn
        refine hgood (.inr ?_)
        rw [User.toRow, dif_neg fun h => hn h.2.2]
        rfl
      rw [hu]
      obtain ⟨row', hrow', hsaved⟩ :=
        save_ticketed hrow (hnum _ hrow) (rfl : w.db.users = w.db.users) hn
      simp only [hrow']
      rw [show (User.saved _ row' w₁.db).users = _ from congrArg Database.users hsaved]
      refine .single (.login w.readings hn hval hrow hlogin ?_)
      rw [hpass, hu]
      rfl
  · exact Std.Refl.refl _

theorem showPage_queries : Queries Login.showPage := by
  unfold Login.showPage
  exact (Queries.modifyRep _).bind fun _ => (settings_reads _).queries.bind fun _ =>
    (Queries.setHdfValue _ _).bind fun _ => (Queries.modifyRep _).bind fun _ => Keeps.pure _

theorem welcome_queries (user : User) : Queries (Login.welcome user) :=
  (Queries.modifyRep _).bind fun _ => (Queries.modifyRep _).bind fun _ =>
    (Queries.modifyRep _).bind fun _ => Keeps.pure _

/-- The end of a failed login. -/
theorem failed_queries : Queries (do
    setHdfValue (lit "FailedAuth") (.number 1)
    return .stop : Act RequestStatus) := (Queries.setHdfValue _ _).bind fun _ => Keeps.pure _

theorem login_writes : WritesUsers (Login.handle env req) := by
  have hauthen : ∀ (u : User) pass, WritesUsers (u.authen env pass) := by
    intro u pass
    unfold User.authen
    split
    · exact (WritesUsers.of_queries (Queries.newTicket _)).bind fun _ =>
        (saveUser_writes _).bind fun _ => Keeps.pure _
    · exact Keeps.pure _
  unfold Login.handle
  split
  · exact WritesUsers.of_queries showPage_queries
  · split
    · unfold Login.validate
      refine (WritesUsers.of_queries (settings_reads _).queries).bind fun _ => ?_
      split
      · exact Keeps.pure _
      · refine (WritesUsers.of_queries (Queries.loadOne _ _)).bind fun _ =>
          (hauthen _ _).bind fun found => ?_
        cases found with
        | some user => exact WritesUsers.of_queries (welcome_queries user)
        | none => exact WritesUsers.of_queries failed_queries
    · exact Keeps.pure _

theorem login_visits : Keeps (Visits env req) (Login.handle env req) := by
  unfold Login.handle
  split
  · exact visits_of_queries showPage_queries
  · split
    · rename_i hvalidate
      intro w
      unfold Login.validate
      refine visits_bind_of (settings_reads _).queries w fun mode _ => ?_
      split
      · exact Std.Refl.refl _
      · refine visits_bind_of (Queries.loadOne _ _) _ fun u hu => ?_
        obtain ⟨row, hrow, hlogin, hself⟩ := of_withLogin_ok hu
        have hdb : (after (User.withLogin (req.svalue (lit "login")))
            (after (Settings.get Login.allowGuests) w)).db =
              (after (Settings.get Login.allowGuests) w).db :=
          congrArg Prod.fst (Queries.loadOne _ _ _)
        rw [← hdb] at hrow
        have hauthen := @authen_visits _ env req _ _ _ hvalidate hrow hlogin hself
        rw [after_bind]
        split
        · rename_i found _
          refine IsTrans.trans _ _ _ hauthen ?_
          cases found with
          | some user => exact visits_of_queries (welcome_queries user) _
          | none => exact visits_of_queries failed_queries _
        · exact hauthen
    · exact Keeps.pure _

/-! ## Whole requests -/

/-- What the handlers, a change of the reply and the greeting keep is kept by a request. -/
theorem keeps_handleRequest {R : World → World → Prop} [Std.Refl R] [IsTrans World R]
    {handlers : List RequestHandler} (hrep : ∀ f, Keeps R (modifyRep f))
    (hhandlers : ∀ h ∈ handlers, Keeps R (h.handle env req))
    (hgreet : ∀ user : User, Keeps R (user.updateAccessTime env)) :
    Keeps R (handleRequest handlers env req) := by
  have htry : ∀ h ∈ inPhases handlers, Keeps R (tryHandler env req h) := by
    intro h hh
    have hmem : h ∈ handlers := by
      obtain ⟨phase, -, hh⟩ := List.mem_flatMap.mp hh
      exact List.mem_of_mem_filter hh
    intro w
    have hhandle := hhandlers h hmem w
    rw [after_tryHandler]
    dsimp only
    split
    · exact IsTrans.trans _ _ _ hhandle (hrep (fun rep => rep.setHeader _ _) _)
    · rename_i e _
      exact IsTrans.trans _ _ _ hhandle (hrep (fun rep => rep.caught e) _)
    · exact hhandle
  have hpass : ∀ hs, (∀ h ∈ hs, Keeps R (tryHandler env req h)) → Keeps R (passOn env req hs) := by
    intro hs
    induction hs with
    | nil => exact fun _ => Keeps.pure _
    | cons h hs ih =>
      intro hall
      simp only [List.forall_mem_cons] at hall
      refine hall.1.bind fun status => ?_
      cases status with
      | stop => exact Keeps.pure _
      | «continue» => exact ih hall.2
  have hgreeting : Keeps R (greetUser env req) := by
    refine (hrep _).bind fun _ => Keeps.get.bind fun w => ?_
    split
    · exact (hrep _).bind fun _ => hgreet _
    · exact Keeps.pure _
  unfold handleRequest
  refine (hpass _ htry).bind fun status => (hgreeting.adapt _).bind fun _ => ?_
  split
  · exact (hrep _).adapt _
  · exact Keeps.pure _

/-- The tables that no request changes. -/
def libraryOf (db : Database) : Database := exceptUsers (exceptLists db)

theorem respond_library : Keeps (Same fun w => libraryOf w.db) (respond env req) := by
  have hqueries : ∀ {ε α : Type} {x : Proc World ε α}, Queries x →
      Keeps (Same fun w => libraryOf w.db) x := fun h => h.same_of fun s => libraryOf s.1
  have husers : ∀ {ε α : Type} {x : Proc World ε α}, WritesUsers x →
      Keeps (Same fun w => libraryOf w.db) x := fun h => h.same_of fun s => exceptLists s
  refine keeps_handleRequest (fun _ => hqueries (.modifyRep _)) ?_ fun user => ?_
  · simp only [linkUp, List.forall_mem_cons]
    refine ⟨?_, hqueries index_queries, hqueries tree_queries.run, hqueries files_queries,
      (husers login_writes).adapt _, husers users_writes, hqueries info_queries.run,
      hqueries xspf_queries, hqueries song_queries, List.forall_mem_nil _⟩
    exact (pl_writes.same_of exceptUsers).adapt _
  · refine husers ?_
    unfold User.updateAccessTime
    exact (WritesUsers.of_queries (Queries.localTime _)).bind fun _ => WritesUsers.mapUsers _ _

/-- A request changes the playlists only if its url begins with `pl`. -/
theorem respond_lists (h : req.u1 ≠ lit "pl") :
    Keeps (Same fun w => (w.db.playlists, w.db.playlistSongs)) (respond env req) := by
  have hqueries : ∀ {ε α : Type} {x : Proc World ε α}, Queries x →
      Keeps (Same fun w => (w.db.playlists, w.db.playlistSongs)) x :=
    fun h => h.same_of fun s => (s.1.playlists, s.1.playlistSongs)
  have husers : ∀ {ε α : Type} {x : Proc World ε α}, WritesUsers x →
      Keeps (Same fun w => (w.db.playlists, w.db.playlistSongs)) x :=
    fun h => h.same_of fun s => (s.playlists, s.playlistSongs)
  have hpl : Keeps (Same fun w => (w.db.playlists, w.db.playlistSongs)) (PL.handle env req) := by
    unfold PL.handle
    rw [if_pos h]
    exact Keeps.pure _
  refine keeps_handleRequest (fun _ => hqueries (.modifyRep _)) ?_ fun user => ?_
  · simp only [linkUp, List.forall_mem_cons]
    exact ⟨hpl.adapt _, hqueries index_queries, hqueries tree_queries.run,
      hqueries files_queries, (husers login_writes).adapt _, husers users_writes,
      hqueries info_queries.run, hqueries xspf_queries, hqueries song_queries,
      List.forall_mem_nil _⟩
  · refine husers ?_
    unfold User.updateAccessTime
    exact (WritesUsers.of_queries (Queries.localTime _)).bind fun _ => WritesUsers.mapUsers _ _

/-- A request of no administrator changes `users` by logins and greetings only. -/
theorem respond_visits (h : ∀ u, req.user = some u → u.hasAtLeast User.adminRole = false) :
    Keeps (Visits env req) (respond env req) := by
  refine keeps_handleRequest (fun _ => visits_of_queries (.modifyRep _)) ?_ fun user => ?_
  · have hpl : Keeps (Visits env req) (PL.handle env req) := by
      intro w
      have hwrites : exceptLists (after (PL.handle env req) w).db = exceptLists w.db := pl_writes w
      have husers := congrArg Database.users hwrites
      exact visits_of_users husers
    simp only [linkUp, List.forall_mem_cons]
    exact ⟨hpl.adapt _, visits_of_queries index_queries, visits_of_queries tree_queries.run,
      visits_of_queries files_queries, login_visits.adapt _,
      visits_of_queries (users_guarded h), visits_of_queries info_queries.run,
      visits_of_queries xspf_queries, visits_of_queries song_queries, List.forall_mem_nil _⟩
  · unfold User.updateAccessTime
    refine (visits_of_queries (Queries.localTime _)).bind fun now w _ => ?_
    rw [after_execUpdate]
    split
    · exact .refl
    · exact .single (.greet user.dbId now)

end Handlers

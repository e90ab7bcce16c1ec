import Spinny.Frame
import Spinny.Handlers.Pl

/-!
# What a failed request leaves behind

The sub-commands that write do so item by item: one position variable, one song, one playlist or
one user after the other, each in statements of its own. No transaction is opened anywhere, so a
request that fails keeps what its items have written before.

* `steps`: the items of a request.
* `failed_stops_between_items`: where handling a request ends in an exception, the tables are as
  the items before the failing one left them; only an inserted playlist can have moved positions
  before it fails.
-/

namespace Handlers

open Bytes Boost Spinny Sqlite Ews Proc

variable [Affinity]

/-- The tables that the sub-commands write. -/
def written (w : World) : Table PlayListRow × Table EntryRow × Table UserRow :=
  (w.db.playlists, w.db.playlistSongs, w.db.users)

/-- The items run one after the other. -/
def inTurn {ε : Type} (steps : List (Proc World ε Unit)) : Proc World ε Unit := steps.forM id

/-! ## The items -/

namespace PL

/-- What `forDigitVars` does with one variable. -/
def digitStep (f : Int → Int → Act Unit) (v : Bytes × Bytes) : Act Unit := do
  let id ← cast (toId v.1)
  let order ← cast (toInt v.2)
  f id order

/-- One song of `/pl/songs/addsongs`. -/
def addSongStep (pl : PlayList) (pos : Int) (songId : Bytes × Nat) : Act Unit := do
  let song ← PlayList.loadSong (← cast (toId songId.1))
  pl.insertSong song (toInt32 (pos + songId.2))

/-- One playlist of `/pl/songs/addpl`. -/
def addPlStep (env : Env) (req : Request) (pl : PlayList) (plId : Bytes) : Act Unit := do
  let p ← PlayList.load (← cast (toId plId))
  pl.insertPlayList env p (toInt32 (← idValue req (lit "position")))

/-- The items of `/pl/songs/addsongs`. -/
def addSongsSteps (req : Request) (pl : PlayList) : List (Act Unit) :=
  match req.varibles[lit "song_id"]?, req.singleValue toId 0 (lit "pos") with
  | none, _ => []
  | some _, none => [throw .badLexicalCast]
  | some songIds, some pos => songIds.zipIdx.map (addSongStep pl pos)

/-- The items of a sub-command of `/pl/songs` that writes. -/
def songSteps (env : Env) (req : Request) (pl : PlayList) : List (Act Unit) :=
  if req.u3 = lit "reorder" then
    (digitVars req).map (digitStep pl.setSongOrder) ++
      [do let _ ← pl.setOrder (lit "playlist_songs") true]
  else if req.u3 = lit "addsongs" then addSongsSteps req pl
  else if req.u3 = lit "add" then [add env req pl]
  else if req.u3 = lit "rm" then [rm req pl]
  else (req.varibles[lit "pl_id"]?.getD []).map (addPlStep env req pl)

end PL

/-- The items of `/users/save`. -/
def Users.saveSteps (env : Env) (req : Request) : List (Run Unit) :=
  let data := req.svalue (lit "data")
  match if data = [] then none else env.jsonArray data with
  | none => [throw (.exn (.error (lit "Malformed JSON data received")))]
  | some users => users.map (Users.saveOne env)

/-- A request to a sub-command that writes. -/
inductive Changes (req : Request) : Prop where
  | songs (h1 : req.u1 = lit "pl") (h2 : req.u2 = lit "songs")
      (h3 : req.u3 ∈ [lit "reorder", lit "addsongs", lit "add", lit "rm", lit "addpl"])
  | lists (h1 : req.u1 = lit "pl") (h2 : req.u2 = lit "reorder")
  | users (h1 : req.u1 = lit "users") (h2 : req.u2 = lit "save")

/-- The handler of such a request. -/
def changing (req : Request) : RequestHandler := if req.u1 = lit "users" then users else pl

/-- The items of a request. -/
def steps (env : Env) (req : Request) (w : World) : List (Run Unit) :=
  if req.u1 = lit "users" then Users.saveSteps env req
  else if req.u2 = lit "reorder" then
    ((PL.digitVars req).map (PL.digitStep PlayList.setPresentOrder)).map Act.run
  else
    match (req.singleValue toId 0 (lit "pl_id")).bind (PlayList.atId w.db) with
    | some pl => (PL.songSteps env req pl).map Act.run
    | none => []

/-- The world in which the first item runs. -/
def begun (req : Request) (w : World) : World :=
  if req.u1 = lit "users" then { w with rep := w.rep.setBasicHeaders (lit "json") } else w

/-! ## Sub-commands as items -/

theorem inTurn_map {α ε : Type} (f : α → Proc World ε Unit) (l : List α) :
    inTurn (l.map f) = l.forM f := by
  induction l with
  | nil => rfl
  | cons a l ih =>
    change f a >>= (fun _ => inTurn (l.map f)) = _
    rw [ih]
    rfl

theorem inTurn_append {ε : Type} (l₁ l₂ : List (Proc World ε Unit)) :
    inTurn (l₁ ++ l₂) = inTurn l₁ >>= fun _ => inTurn l₂ := by
  induction l₁ with
  | nil => rfl
  | cons x l ih =>
    change x >>= (fun _ => inTurn (l ++ l₂)) = (x >>= fun _ => inTurn l) >>= fun _ => inTurn l₂
    rw [ih, bind_assoc]

theorem inTurn_single {ε : Type} (x : Proc World ε Unit) : inTurn [x] = x :=
  bind_pure x

/-- Items that throw, among others. -/
theorem inTurn_run (l : List (Act Unit)) : inTurn (l.map Act.run) = Act.run (inTurn l) := by
  induction l with
  | nil => rfl
  | cons x l ih =>
    change x.run >>= (fun _ => inTurn (l.map Act.run)) = adapt _ (x >>= fun _ => inTurn l)
    rw [ih, adapt_bind]
    rfl

theorem addSongs_eq_steps (req : Request) (pl : PlayList) :
    PL.addSongs req pl = inTurn (PL.addSongsSteps req pl) := by
  unfold PL.addSongs PL.addSongsSteps idValue
  cases req.varibles[lit "song_id"]? with
  | none => rfl
  | some songIds =>
    cases req.singleValue toId 0 (lit "pos") with
    | none => rfl
    | some pos =>
      dsimp only
      rw [inTurn_map, cast_some, pure_bind]
      rfl

theorem addPl_eq_steps (env : Env) (req : Request) (pl : PlayList) :
    PL.addPl env req pl =
      inTurn ((req.varibles[lit "pl_id"]?.getD []).map (PL.addPlStep env req pl)) := by
  unfold PL.addPl
  rw [inTurn_map]
  cases req.varibles[lit "pl_id"]? <;> rfl

theorem saveUsers_eq_steps (env : Env) (req : Request) :
    Users.save env req = inTurn (Users.saveSteps env req) := by
  unfold Users.save Users.saveSteps
  dsimp only
  cases (if req.svalue (lit "data") = [] then none else env.jsonArray (req.svalue (lit "data"))) with
  | none => exact (inTurn_single _).symm
  | some users => exact (inTurn_map _ _).symm

/-- A sub-command of `/pl/songs` runs its items one after the other. -/
theorem songs_eq_steps (env : Env) {req : Request}
    (h : req.u3 ∈ [lit "reorder", lit "addsongs", lit "add", lit "rm", lit "addpl"]) :
    PL.songs env req = (do
      let id ← idValue req (lit "pl_id")
      let pl ← PlayList.load id
      inTurn (PL.songSteps env req pl)) := by
  unfold PL.songs
  refine bind_congr fun id => bind_congr fun pl => ?_
  simp only [List.mem_cons, List.not_mem_nil, or_false] at h
  rcases h with h | h | h | h | h <;> rw [h] <;> unfold PL.songSteps <;> rw [h]
  · rw [if_pos rfl, if_neg (by decide), if_pos rfl, inTurn_append, inTurn_single, inTurn_map]
    rfl
  · exact addSongs_eq_steps req pl
  · exact (inTurn_single _).symm
  · exact (inTurn_single _).symm
  · exact addPl_eq_steps env req pl

/-! ## Items that fail -/

/-- What a failed item has done to the tables: nothing, or, if the request `moves` entries to make
room for a playlist, a move of the entries behind a position. -/
def Left (moves : Prop) (w w' : World) : Prop :=
  written w' = written w ∨ moves ∧ ∃ id position n,
    written w' = (w.db.playlists, PlayList.shifted id position n w.db.playlistSongs, w.db.users)

section

variable {moves : Prop} {ε α β : Type}

theorem Left.of_stored {w w' : World} (h : Same Spinny.stored w w') : Left moves w w' :=
  .inl (congrArg (fun s => (s.1.playlists, s.1.playlistSongs, s.1.users)) h)

theorem Left.after_read {w w' w'' : World} (h : Same Spinny.stored w w') (hl : Left moves w' w'') :
    Left moves w w'' := by
  obtain ⟨hdb, -⟩ := Prod.mk.inj h
  unfold Left written at hl ⊢
  rwa [← hdb]

/-- A query before an operation does not count. -/
theorem bind_left {x : Proc World ε α} {g : α → Proc World ε β} (hx : Queries x)
    (hg : ∀ a, OnError (Left moves) (g a)) : OnError (Left moves) (x >>= g) :=
  Keeps.bind_onError (R := Left moves) (fun _ _ => Left.of_stored) (fun _ _ _ => Left.after_read)
    hx hg

theorem queries_left {x : Proc World ε α} (hx : Queries x) : OnError (Left moves) x :=
  hx.onError.mono fun _ _ => Left.of_stored

/-- A statement that fails has written nothing. -/
theorem update_left (accepted : Bool) (f : Database → Database) :
    OnError (Left moves) (execUpdate accepted f) := by
  intro w e h
  rw [outcome_execUpdate] at h
  rw [after_execUpdate]
  split
  · exact .inl rfl
  · rename_i hc
    rw [if_neg hc] at h
    cases h

/-- From an empty buffer the procedure returns, and it leaves the buffer empty. -/
def Safe (x : Act α) : Prop :=
  ∀ w, w.stale = false → ∃ a, outcome x w = .ok a ∧ (after x w).stale = false

theorem safe_update (f : Database → Database) : Safe (execUpdate true f) := by
  intro w h
  refine ⟨(), ?_, ?_⟩
  · rw [outcome_execUpdate, if_neg (by simp [h])]
  · rw [after_execUpdate]
    split <;> rfl

theorem Safe.forM {γ : Type} {f : γ → Act Unit} (hf : ∀ a, Safe (f a)) (l : List γ) :
    Safe (l.forM f) := by
  induction l with
  | nil => exact fun w h => ⟨(), rfl, h⟩
  | cons a l ih =>
    intro w h
    obtain ⟨u, ha, hclean⟩ := hf a w h
    obtain ⟨v, hl, hend⟩ := ih _ hclean
    rw [forM_cons]
    exact ⟨v, by rw [outcome_bind_ok ha, hl], by rw [after_bind_ok ha]; exact hend⟩

theorem update_clean (accepted : Bool) (f : Database → Database) (w : World) :
    (after (execUpdate accepted f) w).stale = false := by
  rw [after_execUpdate]
  split <;> rfl

/-- Statements behind a first one that has been carried out are carried out. -/
theorem update_safe_left (f : Database → Database) {g : Act α} (hg : Safe g) :
    OnError (Left moves) (execUpdate true f >>= fun _ => g) := by
  refine (update_left true f).bind_safe fun w _ _ => ?_
  obtain ⟨a, ha, -⟩ := hg _ (update_clean true f w)
  exact ⟨a, ha⟩

end

section

variable {moves : Prop}

theorem setSongOrder_left (pl : PlayList) (songId order : Int) :
    OnError (Left moves) (pl.setSongOrder songId order) :=
  bind_left (Queries.dbId pl) fun _ => update_left _ _

theorem setPresentOrder_left (id order : Int) :
    OnError (Left moves) (PlayList.setPresentOrder id order) := update_left _ _

theorem insertSong_left (pl : PlayList) (song : Spinny.Song) (position : Int) :
    OnError (Left moves) (pl.insertSong song position) :=
  bind_left (Queries.dbId pl) fun _ => update_safe_left _ (safe_update _)

theorem insertSongs_left (pl : PlayList) (songs : List Spinny.Song) (position : Int) :
    OnError (Left moves) (pl.insertSongs songs position) :=
  bind_left (Queries.dbId pl) fun _ =>
    update_safe_left _ (Safe.forM (fun _ => safe_update _) _)

theorem remove_left (pl : PlayList) (songId : Int) : OnError (Left moves) (pl.remove songId) :=
  bind_left (Queries.dbId pl) fun _ => update_safe_left _ (safe_update _)

theorem save_left (p : PlayListFields) : OnError (Left moves) p.save :=
  bind_left Keeps.get fun _ => (update_left _ _).bind_safe fun _ _ _ => ⟨_, rfl⟩

theorem setOrder_left (pl : PlayList) (order : Bytes) (descending : Bool) :
    OnError (Left moves) (pl.setOrder order descending) := by
  cases pl with
  | complete => exact fun w e h => by cases h
  | stored p =>
    unfold PlayList.setOrder
    dsimp only
    split
    · exact OnError.pure _
    · refine OnError.bind_safe ?_ fun _ _ _ => ⟨_, rfl⟩
      exact bind_left (Keeps.pure _) fun _ => (save_left _).bind_safe fun _ _ _ => ⟨_, rfl⟩

/-! ## Inserting a playlist -/

theorem makeRoom_left (env : Env) (pl other : PlayList) (position : Int) :
    OnError (Left moves) (PlayList.makeRoom env pl other position) := by
  refine bind_left (Queries.dbId pl) fun id => ?_
  split
  · exact queries_left (Queries.prepare _)
  · exact bind_left (Queries.size _) fun _ => update_left _ _

/-- Room is made by moving the entries behind the position. -/
theorem makeRoom_ok {env : Env} {pl other : PlayList} {position : Int} {w : World}
    (h : outcome (PlayList.makeRoom env pl other position) w = .ok ()) :
    ∃ id n, written (after (PlayList.makeRoom env pl other position) w) =
      (w.db.playlists, PlayList.shifted id position n w.db.playlistSongs, w.db.users) := by
  unfold PlayList.makeRoom at h ⊢
  obtain ⟨id, hid, h⟩ := bind_eq_ok.mp h
  have hw := Queries.dbId pl w
  rw [after_bind_ok hid]
  generalize after pl.dbId w = w₁ at h hw ⊢
  split at h
  · rw [outcome_prepare, if_pos (.inr rfl)] at h
    cases h
  · rename_i other _ _ _ _
    obtain ⟨n, hn, h⟩ := bind_eq_ok.mp h
    have hw' : Same Spinny.stored w (after other.size w₁) :=
      IsTrans.trans _ _ _ hw (Queries.size other w₁)
    rw [after_bind_ok hn]
    generalize after other.size w₁ = w₂ at h hw' ⊢
    obtain ⟨hdb, -⟩ := Prod.mk.inj hw'
    rw [outcome_execUpdate] at h
    rw [after_execUpdate]
    split
    · rename_i hc
      rw [if_pos hc] at h
      cases h
    · exact ⟨id, n, by rw [← hdb]; rfl⟩

/-- What follows the first statement writes only where it cannot fail any more. -/
theorem copies_left (env : Env) (pl : PlayList) (position : Int) :
    OnError (Left False) (do
      let id ← pl.dbId
      let ids ← pl.songIds env
      ids.zipIdx.forM fun s => PlayList.insertEntry id s.1 (toInt32 (position + s.2 + 1))) := by
  refine bind_left (Queries.dbId pl) fun id => ?_
  refine (queries_left (Queries.songIds env pl)).bind_safe fun w ids _ => ?_
  obtain ⟨u, hu, -⟩ := Safe.forM (fun s => safe_update _) ids.zipIdx
    (after (pl.songIds env) w) (by rw [PlayList.after_songIds])
  exact ⟨u, hu⟩

/-- The insertion of a playlist can fail behind its first statement, when its entries are listed. -/
theorem insertPlayList_left (hm : moves) (env : Env) (pl other : PlayList) (position : Int) :
    OnError (Left moves) (pl.insertPlayList env other position) := by
  intro w e h
  unfold PlayList.insertPlayList at h ⊢
  cases hroom : outcome (PlayList.makeRoom env pl other position) w with
  | error e' =>
    rw [after_bind_error hroom]
    exact makeRoom_left env pl other position w e' hroom
  | ok u =>
    rw [outcome_bind_ok hroom] at h
    rw [after_bind_ok hroom]
    obtain ⟨id, n, hmoved⟩ := makeRoom_ok hroom
    rcases copies_left env pl position _ e h with hsame | ⟨hf, -⟩
    · exact .inr ⟨hm, id, position, n, hsame.trans hmoved⟩
    · exact hf.elim

/-! ## The items of the sub-commands -/

theorem digitStep_left {f : Int → Int → Act Unit} (hf : ∀ id order, OnError (Left moves) (f id order))
    (v : Bytes × Bytes) : OnError (Left moves) (PL.digitStep f v) :=
  bind_left (Queries.cast _) fun _ => bind_left (Queries.cast _) fun _ => hf _ _

theorem addSongStep_left (pl : PlayList) (pos : Int) (songId : Bytes × Nat) :
    OnError (Left moves) (PL.addSongStep pl pos songId) :=
  bind_left (Queries.cast _) fun _ => bind_left (Queries.loadSong _) fun _ =>
    insertSong_left _ _ _

theorem addSongsSteps_left (req : Request) (pl : PlayList) :
    ∀ step ∈ PL.addSongsSteps req pl, OnError (Left moves) step := by
  intro step hstep
  unfold PL.addSongsSteps at hstep
  split at hstep
  · cases hstep
  · obtain rfl := List.mem_singleton.mp hstep
    exact queries_left (Keeps.throw _)
  · obtain ⟨songId, -, rfl⟩ := List.mem_map.mp hstep
    exact addSongStep_left _ _ _

end

/-- The request inserts playlists. -/
def InsertsPlayLists (req : Request) : Prop :=
  req.u1 = lit "pl" ∧ req.u2 = lit "songs" ∧
    (req.u3 = lit "addpl" ∨ req.u3 = lit "add" ∧ req.u4 = lit "pl")

theorem add_left (env : Env) {req : Request} (h1 : req.u1 = lit "pl") (h2 : req.u2 = lit "songs")
    (h3 : req.u3 = lit "add") (pl : PlayList) :
    OnError (Left (InsertsPlayLists req)) (PL.add env req pl) := by
  refine bind_left (Queries.cast _) fun id => bind_left (Queries.cast _) fun pos => ?_
  unfold PL.addSomething
  split
  · exact bind_left (Queries.song_load _) fun _ => insertSong_left _ _ _
  · split
    · exact bind_left (Queries.musicDir_load _) fun _ =>
        bind_left (Queries.songsWhere _ _) fun _ => insertSongs_left _ _ _
    · split
      · exact bind_left (Queries.artist_load _) fun _ =>
          bind_left (Queries.songsWhere _ _) fun _ => insertSongs_left _ _ _
      · split
        · rename_i h4
          exact bind_left (Queries.playList_load _) fun _ =>
            insertPlayList_left ⟨h1, h2, .inr ⟨h3, h4⟩⟩ _ _ _ _
        · exact OnError.pure _

/-- An item that fails has written nothing, but for a playlist that is inserted. -/
theorem songSteps_left (env : Env) {req : Request} (pl : PlayList)
    (h1 : req.u1 = lit "pl") (h2 : req.u2 = lit "songs")
    (h : req.u3 ∈ [lit "reorder", lit "addsongs", lit "add", lit "rm", lit "addpl"]) :
    ∀ step ∈ PL.songSteps env req pl, OnError (Left (InsertsPlayLists req)) step := by
  intro step hstep
  unfold PL.songSteps at hstep
  split at hstep
  · rcases List.mem_append.mp hstep with hstep | hstep
    · obtain ⟨v, -, rfl⟩ := List.mem_map.mp hstep
      exact digitStep_left (fun _ _ => setSongOrder_left _ _ _) v
    · obtain rfl := List.mem_singleton.mp hstep
      exact (setOrder_left _ _ _).bind_safe fun _ _ _ => ⟨_, rfl⟩
  · split at hstep
    · exact addSongsSteps_left _ _ step hstep
    · split at hstep
      · rename_i h3
        obtain rfl := List.mem_singleton.mp hstep
        exact add_left env h1 h2 h3 pl
      · split at hstep
        · obtain rfl := List.mem_singleton.mp hstep
          exact bind_left (Queries.cast _) fun _ => remove_left _ _
        · obtain ⟨plId, -, rfl⟩ := List.mem_map.mp hstep
          have h3 : req.u3 = lit "addpl" := by
            simp only [List.mem_cons, List.not_mem_nil, or_false] at h
            rcases h with h | h | h | h | h
            · contradiction
            · contradiction
            · contradiction
            · contradiction
            · exact h
          exact bind_left (Queries.cast _) fun _ => bind_left (Queries.playList_load _) fun _ =>
            bind_left (Queries.cast _) fun _ => insertPlayList_left ⟨h1, h2, .inl h3⟩ _ _ _ _

theorem converted_queries {α : Type} (x : Option α) : Queries (Users.converted x) := by
  cases x
  · exact Keeps.throw _
  · exact Keeps.pure _

theorem saveUser_left {moves : Prop} (u : User) : OnError (Left moves) u.save := update_left _ _

theorem saveOne_left (env : Env) (json : JsonUser) :
    OnError (Left False) (Users.saveOne env json) := by
  refine bind_left (converted_queries _) fun uid => bind_left (converted_queries _) fun login =>
    bind_left (converted_queries _) fun password => bind_left (converted_queries _) fun role => ?_
  split
  · refine bind_left (Queries.user_load _).run fun user =>
      bind_left (Queries.cast _).run fun n => ?_
    exact (saveUser_left _).adapt _
  · refine bind_left (Queries.user_create _ _ _).run fun user =>
      bind_left (Queries.cast _).run fun n => ?_
    exact (saveUser_left _).adapt _

theorem after_requireAuth (user : Option User) (role : Int) (w : World) :
    after (requireAuth user role) w = w := by
  unfold requireAuth
  cases user with
  | none => rfl
  | some u =>
    dsimp only
    split <;> rfl

theorem saveSteps_left (env : Env) (req : Request) :
    ∀ step ∈ Users.saveSteps env req, OnError (Left False) step := by
  intro step hstep
  unfold Users.saveSteps at hstep
  dsimp only at hstep
  split at hstep
  · obtain rfl := List.mem_singleton.mp hstep
    exact queries_left (Keeps.throw _)
  · obtain ⟨json, -, rfl⟩ := List.mem_map.mp hstep
    exact saveOne_left env json

/-! ## Failed requests -/

/-- What a failed request has done to the tables: nothing, or what its items before the failing one
have done, each of them carried out. -/
def LeftByItems (env : Env) (req : Request) (w w' : World) : Prop :=
  written w' = written w ∨
    ∃ done step rest, steps env req w = done ++ step :: rest ∧
      outcome (inTurn done) (begun req w) = .ok () ∧
      Left (InsertsPlayLists req) (after (inTurn done) (begun req w)) w'

/-- Items stop at the one that fails. -/
theorem inTurn_left {moves : Prop} {ε : Type} {l : List (Proc World ε Unit)} {w : World} {e : ε}
    (hl : ∀ step ∈ l, OnError (Left moves) step) (h : outcome (inTurn l) w = .error e) :
    ∃ done step rest, l = done ++ step :: rest ∧ outcome (inTurn done) w = .ok () ∧
      Left moves (after (inTurn done) w) (after (inTurn l) w) := by
  obtain ⟨done, step, rest, hsplit, hdone, hstep, hafter⟩ := forM_eq_error h
  refine ⟨done, step, rest, hsplit, hdone, ?_⟩
  have hleft := hl step (by simp [hsplit]) _ _ hstep
  rw [show after (inTurn l) w = _ from hafter]
  exact hleft

/-- The same for items that can only throw. -/
theorem inTurn_run_left {moves : Prop} {l : List (Act Unit)} {w : World} {e : Exn}
    (hl : ∀ step ∈ l, OnError (Left moves) step) (h : outcome (inTurn l) w = .error e) :
    ∃ done step rest, l.map Act.run = done ++ step :: rest ∧ outcome (inTurn done) w = .ok () ∧
      Left moves (after (inTurn done) w) (after (inTurn l) w) := by
  obtain ⟨done, step, rest, rfl, hdone, hleft⟩ := inTurn_left hl h
  refine ⟨done.map Act.run, Act.run step, rest.map Act.run, by simp, ?_, ?_⟩
  · rw [inTurn_run, outcome_run_ok hdone]
  · rw [inTurn_run, after_run]
    exact hleft

/-- Only the sub-command can throw. -/
theorem handle_error {env : Env} {req : Request} {w : World} {e : Exn} (h1 : req.u1 = lit "pl")
    (h : outcome (PL.handle env req) w = .error e) :
    outcome (PL.answer env req) w = .error e ∧
      after (PL.handle env req) w = after (PL.answer env req) w := by
  simp only [PL.handle, h1, ne_eq, not_true_eq_false, if_false] at h ⊢
  cases ha : outcome (PL.answer env req) w with
  | ok u =>
    rw [outcome_bind_ok ha] at h
    cases h
  | error e' =>
    rw [outcome_bind_error ha] at h
    exact ⟨congrArg Except.error (Except.error.inj h), after_bind_error ha _⟩

theorem songs_failed {env : Env} {req : Request} {w : World} {e : Exn} (h1 : req.u1 = lit "pl")
    (h2 : req.u2 = lit "songs")
    (h3 : req.u3 ∈ [lit "reorder", lit "addsongs", lit "add", lit "rm", lit "addpl"])
    (h : outcome (PL.songs env req) w = .error e) :
    LeftByItems env req w (after (PL.songs env req) w) := by
  have hne : req.u1 ≠ lit "users" := by rw [h1]; decide
  have hlist : req.u2 ≠ lit "reorder" := by rw [h2]; decide
  rw [songs_eq_steps env h3] at h ⊢
  unfold idValue at h ⊢
  cases hid : req.singleValue toId 0 (lit "pl_id") with
  | none => exact .inl rfl
  | some id =>
    rw [hid, cast_some, pure_bind] at h
    rw [cast_some, pure_bind]
    cases hload : outcome (PlayList.load id) w with
    | error e' =>
      rw [after_bind_error hload, PlayList.after_load]
      exact .inl rfl
    | ok pl =>
      rw [outcome_bind_ok hload, PlayList.after_load] at h
      rw [after_bind_ok hload, PlayList.after_load]
      have hat : PlayList.atId w.db id = some pl := PlayList.atId_of_load_ok hload
      obtain ⟨done, step, rest, hsplit, hdone, hleft⟩ :=
        inTurn_run_left (songSteps_left env pl h1 h2 h3) h
      refine .inr ⟨done, step, rest, ?_, ?_⟩
      · rw [steps, if_neg hne, if_neg hlist, hid, Option.bind_some, hat, ← hsplit]
      · rw [begun, if_neg hne]
        exact ⟨hdone, hleft⟩

theorem lists_failed {env : Env} {req : Request} {w : World} {e : Exn} (h1 : req.u1 = lit "pl")
    (h2 : req.u2 = lit "reorder")
    (h : outcome (PL.forDigitVars req PlayList.setPresentOrder) w = .error e) :
    LeftByItems env req w (after (PL.forDigitVars req PlayList.setPresentOrder) w) := by
  have hne : req.u1 ≠ lit "users" := by rw [h1]; decide
  have hsteps : PL.forDigitVars req PlayList.setPresentOrder =
      inTurn ((PL.digitVars req).map (PL.digitStep PlayList.setPresentOrder)) :=
    (inTurn_map _ _).symm
  have hleft : ∀ step ∈ (PL.digitVars req).map (PL.digitStep PlayList.setPresentOrder),
      OnError (Left (InsertsPlayLists req)) step := by
    intro step hstep
    obtain ⟨v, -, rfl⟩ := List.mem_map.mp hstep
    exact digitStep_left (fun _ _ => setPresentOrder_left _ _) v
  rw [hsteps] at h ⊢
  obtain ⟨done, step, rest, hsplit, hdone, hleft⟩ := inTurn_run_left hleft h
  refine .inr ⟨done, step, rest, ?_, ?_⟩
  · rw [steps, if_neg hne, if_pos h2, hsplit]
  · rw [begun, if_neg hne]
    exact ⟨hdone, hleft⟩

theorem users_failed {env : Env} {req : Request} {w : World} {r : Raise}
    (h1 : req.u1 = lit "users") (h2 : req.u2 = lit "save")
    (h : outcome (Users.handle env req) w = .error r) :
    LeftByItems env req w (after (Users.handle env req) w) := by
  have hhandle : Users.handle env req = (do
      requireAuth req.user User.adminRole
      modifyRep fun rep => rep.setBasicHeaders (lit "json")
      inTurn (Users.saveSteps env req)
      return .stop) := by
    simp only [Users.handle, Users.answer, h1, h2, ne_eq, not_true_eq_false, if_false, if_true,
      if_neg (show ¬ lit "save" = lit "list" by decide),
      if_neg (show ¬ lit "save" = lit "del" by decide), saveUsers_eq_steps]
  rw [hhandle] at h ⊢
  cases hauth : outcome (requireAuth req.user User.adminRole) w with
  | error r' =>
    rw [after_bind_error hauth, after_requireAuth]
    exact .inl rfl
  | ok u =>
    rw [outcome_bind_ok hauth, after_requireAuth] at h
    rw [after_bind_ok hauth, after_requireAuth]
    have hbegun : begun req w = { w with rep := w.rep.setBasicHeaders (lit "json") } := if_pos h1
    change outcome (inTurn (Users.saveSteps env req) >>= fun _ => pure RequestStatus.stop)
      { w with rep := w.rep.setBasicHeaders (lit "json") } = .error r at h
    change LeftByItems env req w (after (inTurn (Users.saveSteps env req) >>= fun _ => pure RequestStatus.stop)
      { w with rep := w.rep.setBasicHeaders (lit "json") })
    rw [← hbegun] at h ⊢
    cases hs : outcome (inTurn (Users.saveSteps env req)) (begun req w) with
    | ok u =>
      rw [outcome_bind_ok hs] at h
      cases h
    | error r' =>
      rw [after_bind_error hs]
      obtain ⟨done, step, rest, hsplit, hdone, hleft⟩ := inTurn_left (saveSteps_left env req) hs
      refine .inr ⟨done, step, rest, ?_, hdone, hleft.imp_right fun hf => hf.1.elim⟩
      rw [steps, if_pos h1, hsplit]

/-- **A request that fails leaves the tables as its items before the failing one left them.** -/
theorem failed_stops_between_items {env : Env} {req : Request} {w : World} {e : Exn}
    (hreq : Changes req)
    (h : outcome ((changing req).handle env req) w = .error (.exn e)) :
    LeftByItems env req w (after ((changing req).handle env req) w) := by
  cases hreq with
  | songs h1 h2 h3 =>
    rw [changing, if_neg (by rw [h1]; decide)] at h ⊢
    obtain ⟨h, hafter⟩ := handle_error h1 (error_of_run h)
    rw [show after (pl.handle env req) w = _ from hafter]
    unfold PL.answer at h ⊢
    rw [if_pos h2] at h ⊢
    exact songs_failed h1 h2 h3 h
  | lists h1 h2 =>
    rw [changing, if_neg (by rw [h1]; decide)] at h ⊢
    obtain ⟨h, hafter⟩ := handle_error h1 (error_of_run h)
    rw [show after (pl.handle env req) w = _ from hafter]
    unfold PL.answer at h ⊢
    rw [if_neg (by rw [h2]; decide), if_neg (by rw [h2]; decide), if_neg (by rw [h2]; decide),
      if_pos h2] at h ⊢
    exact lists_failed h1 h2 h
  | users h1 h2 =>
    rw [changing, if_pos h1] at h ⊢
    exact users_failed h1 h2 h

/-! ## A request that fails at its second item -/

/-- A library with the playlist 2. -/
def onePlayList : Database :=
  { Database.empty with
    playlists := .single 2
      ⟨.ofLiteral (lit "mine") nulFree_mine, .empty, .ofLiteral (lit "present_order desc") nulFree_newOrder, 0⟩ }

omit [Affinity] in
/-- A position for the playlist 2 and a text for the playlist 3. -/
def halfReorder : Request :=
  .forUrl (lit "/pl/reorder") (Std.ExtTreeMap.ofList [(lit "2", [lit "5"]), (lit "3", [lit "x"])])

omit [Affinity] in
theorem halfReorder_changes : Changes halfReorder := .lists (by decide) (by decide)

omit [Affinity] in
/-- The first position is written although the second one throws. -/
theorem halfReorder_writes :
    let w := @World.start integerAffinity (@onePlayList integerAffinity)
    let handle := @RequestHandler.handle integerAffinity (@changing integerAffinity halfReorder)
      (@Env.plain integerAffinity)
      halfReorder
    Changes halfReorder ∧ outcome handle w = .error (.exn .badLexicalCast) ∧
      @written integerAffinity (after handle w) ≠ @written integerAffinity w :=
  ⟨halfReorder_changes, rfl, by decide⟩

omit [Affinity] in
theorem halfReorder_leftByItems :
    let w := @World.start integerAffinity (@onePlayList integerAffinity)
    @LeftByItems integerAffinity (@Env.plain integerAffinity) halfReorder w
      (after (@RequestHandler.handle integerAffinity (@changing integerAffinity halfReorder)
        (@Env.plain integerAffinity) halfReorder) w) :=
  @failed_stops_between_items integerAffinity _ _ _ .badLexicalCast
    halfReorder_changes rfl

end Handlers

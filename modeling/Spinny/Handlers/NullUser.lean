import Spinny.Handlers.LinkUp

/-!
# Where a null user is dereferenced

`Users`, `Xspf` and `Index` read `req.user` without a test. What stands before them is `Login`,
which stops a request without a user only if its second path element is empty and its url does
not end in `.gif`.

* `dereferences_iff`: exactly which requests, in which worlds, dereference a null user.
-/

namespace Handlers

open Bytes Boost Spinny Sqlite Ews Proc

variable [Affinity]

/-! ## Handlers that leave a request alone -/

/-- A handler that is not meant is passed over. -/
theorem passOn_skip {env : Env} {req : Request} {h : RequestHandler}
    (hskip : h.handle env req = pure .continue) (hs : List RequestHandler) :
    passOn env req (h :: hs) = passOn env req hs := by
  have htry : tryHandler env req h = pure .continue := by
    unfold tryHandler
    rw [hskip]
    rfl
  rw [passOn, htry]
  rfl

theorem users_skip {req : Request} (env : Env) (h : req.u1 ≠ lit "users") :
    users.handle env req = pure .continue := by
  simp only [users, Users.handle, if_pos h]

theorem xspf_skip {req : Request} (env : Env) (h : req.u1 ≠ lit "xspf") :
    xspf.handle env req = pure .continue := by
  simp only [xspf, Xspf.handle, if_pos h]

theorem song_skip {req : Request} (env : Env) (h : req.u1 ≠ lit "song") :
    song.handle env req = pure .continue := by
  simp only [song, Song.handle, if_pos h]

theorem pl_skip {req : Request} (env : Env) (h : req.u1 ≠ lit "pl") :
    pl.handle env req = pure .continue := by
  simp only [pl, PL.handle, if_pos h]
  rfl

theorem index_skip {req : Request} (env : Env) (h : req.u1 ≠ []) :
    index.handle env req = pure .continue := by
  simp only [index, Index.handle, if_pos h]

/-! ## What dereferences none -/

/-- The run ends at a null user. -/
abbrev Derefs {α : Type} (x : Run α) (w : World) : Prop := outcome x w = .error .nullUser

/-- A procedure that dereferences no null user. -/
abbrev Spares {α : Type} (x : Run α) : Prop := Never (· = .nullUser) x

theorem Spares.not_derefs {α : Type} {x : Run α} (h : Spares x) (w : World) : ¬ Derefs x w :=
  fun hd => h w _ hd rfl

theorem spares_run {α : Type} (x : Act α) : Spares x.run :=
  Act.never_run (by simp) x

theorem derefs_bind {α β : Type} {x : Run α} {f : α → Run β} {w : World} :
    Derefs (x >>= f) w ↔ Derefs x w ∨ ∃ a, outcome x w = .ok a ∧ Derefs (f a) (after x w) := by
  unfold Derefs
  rw [outcome_bind]
  cases outcome x w <;> simp

/-- Code that throws passes a null user on to what follows it. -/
theorem derefs_run_bind {α β : Type} {x : Act α} {f : α → Run β} {w : World} :
    Derefs (x.run >>= f) w ↔ ∃ a, outcome x w = .ok a ∧ Derefs (f a) (after x w) := by
  rw [derefs_bind]
  constructor
  · rintro (h | ⟨a, h, hf⟩)
    · exact absurd h ((spares_run x).not_derefs w)
    · cases hx : outcome x w with
      | ok b =>
        obtain rfl : b = a := by simpa [outcome_run_ok hx] using h
        exact ⟨b, rfl, hf⟩
      | error e => simp [outcome_run_error hx] at h
  · rintro ⟨a, h, hf⟩
    exact .inr ⟨a, outcome_run_ok h, hf⟩

/-- The `catch` clauses do not see a null user. -/
theorem derefs_tryHandler {env : Env} {req : Request} {h : RequestHandler} {w : World} :
    Derefs (tryHandler env req h) w ↔ Derefs (h.handle env req) w := by
  unfold Derefs
  rw [outcome_tryHandler]
  split <;> simp_all

theorem derefs_passOn_cons {env : Env} {req : Request} {h : RequestHandler}
    {hs : List RequestHandler} {w : World} :
    Derefs (passOn env req (h :: hs)) w ↔ Derefs (h.handle env req) w ∨
      outcome (h.handle env req) w = .ok .continue ∧
        Derefs (passOn env req hs) (after (h.handle env req) w) := by
  rw [passOn, derefs_bind, derefs_tryHandler]
  refine or_congr_right ?_
  rw [outcome_tryHandler, after_tryHandler]
  cases outcome (h.handle env req) w with
  | ok status => cases status <;> simp
  | error r => cases r <;> simp

/-- Handlers that spare the user one by one spare it together. -/
theorem spares_passOn {env : Env} {req : Request} {hs : List RequestHandler}
    (h : ∀ x ∈ hs, Spares (x.handle env req)) : Spares (passOn env req hs) := by
  rintro w r hr rfl
  induction hs generalizing w with
  | nil => simp [passOn] at hr
  | cons x hs ih =>
    rcases derefs_passOn_cons.mp hr with hd | ⟨-, hd⟩
    · exact (h x (by simp)).not_derefs w hd
    · exact ih (fun y hy => h y (by simp [hy])) _ hd

theorem derefs_handleRequest {handlers : List RequestHandler} {env : Env} {req : Request}
    {w : World} :
    Derefs (handleRequest handlers env req) w ↔ Derefs (passOn env req (inPhases handlers)) w := by
  unfold handleRequest
  rw [derefs_bind]
  refine or_iff_left ?_
  rintro ⟨status, -, hd⟩
  rw [liftM_act, derefs_run_bind] at hd
  obtain ⟨-, -, hd⟩ := hd
  cases status <;> simp [Derefs, outcome_run, Except.mapError] at hd

/-! ## The gate -/

/-- `Login` lets the request pass on: it is not shown the login page, and for `validate` the
setting is read and asks for no password. -/
def Login.Passes (req : Request) (w : World) : Prop :=
  Login.asksLogin req = false ∧
    (req.u2 = lit "validate" → ∃ mode, outcome (Settings.get Login.allowGuests) w = .ok mode ∧
      (mode = lit "WithPassword" ∨ mode = lit "WithName"))

theorem outcome_getAllowGuests (w : World) :
    outcome (Settings.get Login.allowGuests) w =
      if w.stale = true then .error .databaseError else .ok (w.db.setting Login.allowGuests) := by
  have hn : nulFree Login.allowGuests = true := by decide
  rw [Settings.get, outcome_execSelect, hn]
  simp

theorem after_getAllowGuests (w : World) :
    after (Settings.get Login.allowGuests) w = { w with stale := false } := by
  rw [Settings.get, after_execSelect]

/-- A world without a refused text is left as it is by clearing the buffer. -/
theorem clear_eq_self {w : World} (h : w.stale = false) : { w with stale := false } = w := by
  cases w
  simp_all

theorem showPage_ne_continue (w : World) : outcome Login.showPage w ≠ .ok .continue := by
  intro h
  simp only [Login.showPage, bind_eq_ok] at h
  obtain ⟨_, _, _, _, _, _, _, _, h⟩ := h
  simp at h

/-- The setting is read where no text is left behind. -/
theorem getAllowGuests_iff {w : World} {mode : Bytes} :
    outcome (Settings.get Login.allowGuests) w = .ok mode ↔
      w.stale = false ∧ w.db.setting Login.allowGuests = mode := by
  rw [outcome_getAllowGuests]
  cases w.stale <;> simp

theorem validate_continue_iff (env : Env) (req : Request) (w : World) :
    outcome (Login.validate env req) w = .ok .continue ↔
      ∃ mode, outcome (Settings.get Login.allowGuests) w = .ok mode ∧
        (mode = lit "WithPassword" ∨ mode = lit "WithName") := by
  unfold Login.validate
  rw [outcome_bind, outcome_getAllowGuests]
  cases hs : w.stale with
  | true => simp
  | false =>
    simp only [Bool.false_eq_true, if_false, Except.ok.injEq, exists_eq_left']
    constructor
    · intro h
      by_contra hmode
      rw [if_neg hmode] at h
      -- Whoever logs in, the handler stops.
      obtain ⟨user, -, h⟩ := bind_eq_ok.mp h
      obtain ⟨authenticated, -, h⟩ := bind_eq_ok.mp h
      cases authenticated with
      | some u =>
        simp only [Login.welcome, bind_eq_ok] at h
        obtain ⟨_, _, _, _, _, _, h⟩ := h
        simp at h
      | none =>
        obtain ⟨_, _, h⟩ := bind_eq_ok.mp h
        simp at h
    · intro hmode
      rw [if_pos hmode]
      rfl

theorem login_continue_iff (env : Env) (req : Request) (w : World) :
    outcome (Login.handle env req) w = .ok .continue ↔ Login.Passes req w := by
  unfold Login.handle Login.Passes
  cases ha : Login.asksLogin req with
  | true => simpa using showPage_ne_continue w
  | false =>
    by_cases hv : req.u2 = lit "validate"
    · simp only [hv, Bool.false_eq_true, if_false, if_true, true_and, forall_const,
        validate_continue_iff]
    · simp [hv]

theorem after_login {env : Env} {req : Request} {w : World} (h : Login.Passes req w) :
    after (Login.handle env req) w = w := by
  obtain ⟨ha, hv⟩ := h
  unfold Login.handle
  simp only [ha, Bool.false_eq_true, if_false]
  split
  · rename_i hval
    obtain ⟨mode, hread, hmode⟩ := hv hval
    obtain ⟨hs, rfl⟩ := getAllowGuests_iff.mp hread
    unfold Login.validate
    rw [after_bind, outcome_getAllowGuests, after_getAllowGuests]
    simp only [hs, Bool.false_eq_true, if_false, if_pos hmode]
    exact clear_eq_self hs
  · rfl

/-! ## `Xspf` -/

/-- A step that returns goes on from where it ended. -/
theorem derefs_step {α β : Type} {x : Act α} {f : α → Run β} {w w' : World} {a : α}
    (hx : outcome x w = .ok a) (hw : after x w = w') :
    Derefs (x.run >>= f) w ↔ Derefs (f a) w' := by
  rw [derefs_run_bind, hx, hw]
  simp

theorem not_derefs_step {α β : Type} {x : Act α} {f : α → Run β} {w : World} {e : Exn}
    (hx : outcome x w = .error e) : ¬ Derefs (x.run >>= f) w := by
  rw [derefs_run_bind, hx]
  simp

/-- `Xspf` comes to a song of the playlist that the path names. -/
def Xspf.Lists (env : Env) (req : Request) (w : World) : Prop :=
  ∃ id pl song songs, toId req.u2 = some id ∧ PlayList.atId w.db id = some pl ∧
    outcome (pl.songs env 0 0 >>= ResultSet.begin) w = .ok (song :: songs)

omit [Affinity] in
theorem template_setTemplate (rep : Reply) {tmpl : Bytes} (h : tmpl ≠ []) :
    (rep.setTemplate tmpl).template ≠ [] := by
  unfold Reply.setTemplate
  split <;> exact h

theorem derefs_setHdfValue {β : Type} {key : Bytes} {value : HdfValue} {f : Unit → Run β}
    {w : World} (h : w.rep.template ≠ []) :
    Derefs ((setHdfValue key value).run >>= f) w ↔
      Derefs (f ()) { w with rep := { w.rep with hdf := w.rep.hdf ++ [(key, value)] } } :=
  derefs_step (by rw [outcome_setHdfValue, if_neg h]) (by rw [after_setHdfValue, if_neg h])

theorem derefs_putSongs (env : Env) {req : Request} (hu : req.user = none)
    (songs : List Spinny.Song) (w : World) :
    Derefs (songs.zipIdx.forM fun s => Xspf.putSong env req (s.2 + 1) s.1) w ↔ songs ≠ [] := by
  cases songs with
  | nil => simp [Derefs]
  | cons s songs =>
    have hput : ∀ n, Xspf.putSong env req n s = throw .nullUser := by
      intro n
      simp [Xspf.putSong, hu]
    simp [hput, Derefs]

/-- The loop of `Xspf` meets the null user exactly if the playlist lists a song. -/
theorem derefs_songsLoop (env : Env) {req : Request} (hu : req.user = none) (pl : PlayList)
    (w : World) :
    Derefs ((pl.songs env 0 0).run >>= fun rs => rs.begin.run >>= fun songs =>
      (songs.zipIdx.forM fun s => Xspf.putSong env req (s.2 + 1) s.1) >>= fun _ =>
        (put (lit "\x7d\n")).run >>= fun _ => pure RequestStatus.stop) w ↔
      ∃ song songs, outcome (pl.songs env 0 0 >>= ResultSet.begin) w = .ok (song :: songs) := by
  have hafter (songs : List Spinny.Song) (w : World) :
      Derefs ((songs.zipIdx.forM fun s => Xspf.putSong env req (s.2 + 1) s.1) >>= fun _ =>
        (put (lit "\x7d\n")).run >>= fun _ => pure RequestStatus.stop) w ↔ songs ≠ [] := by
    rw [derefs_bind, derefs_putSongs env hu]
    refine or_iff_left ?_
    rintro ⟨-, -, hd⟩
    rw [derefs_run_bind] at hd
    simp [Derefs] at hd
  simp only [derefs_run_bind, hafter]
  constructor
  · rintro ⟨rs, hrs, songs, hsongs, hne⟩
    obtain ⟨song, songs, rfl⟩ := List.exists_cons_of_ne_nil hne
    exact ⟨song, songs, bind_eq_ok.mpr ⟨rs, hrs, hsongs⟩⟩
  · rintro ⟨song, songs, h⟩
    obtain ⟨rs, hrs, hsongs⟩ := bind_eq_ok.mp h
    exact ⟨rs, hrs, song :: songs, hsongs, List.cons_ne_nil _ _⟩

/-- A listing looks at the tables, at the complete playlist and at the buffer. -/
theorem outcome_listing_congr (env : Env) (pl : PlayList) {w w' : World} (hdb : w'.db = w.db)
    (hcomplete : w'.complete = w.complete) (hstale : w'.stale = w.stale) :
    outcome (pl.songs env 0 0 >>= ResultSet.begin) w' =
      outcome (pl.songs env 0 0 >>= ResultSet.begin) w := by
  simp only [outcome_bind, PlayList.outcome_songs, PlayList.after_songs, outcome_begin, hdb,
    hcomplete, hstale]

/-- A listing that comes to an end has found no text in the buffer. -/
theorem stale_of_listing {env : Env} {pl : PlayList} {w : World} {songs : List Spinny.Song}
    (h : outcome (pl.songs env 0 0 >>= ResultSet.begin) w = .ok songs) : w.stale = false := by
  obtain ⟨rs, hrs, -⟩ := bind_eq_ok.mp h
  rw [PlayList.outcome_songs] at hrs
  cases hs : w.stale with
  | false => rfl
  | true =>
    rw [hs] at hrs
    split at hrs <;> cases hrs

theorem derefs_putPlayList (env : Env) {req : Request} (hu : req.user = none) (w : World) :
    Derefs (Xspf.putPlayList env req) w ↔ Xspf.Lists env req w := by
  unfold Xspf.putPlayList
  simp only [liftM_act]
  rw [derefs_step (outcome_modifyRep _ _) (after_modifyRep _ _)]
  cases hid : toId req.u2 with
  | none =>
    refine iff_of_false (not_derefs_step rfl) ?_
    rintro ⟨_, _, _, _, hid', -⟩
    simp [hid] at hid'
  | some id =>
    rw [cast_some, derefs_step (outcome_pure _ _) (after_pure _ _)]
    have hload := PlayList.outcome_load id { w with rep := w.rep.setBasicHeaders (lit "txt") }
    dsimp only at hload
    by_cases hl : id ≠ 1 ∧ w.stale = true
    · rw [if_pos hl] at hload
      refine iff_of_false (not_derefs_step hload) ?_
      rintro ⟨_, _, _, _, -, -, hlist⟩
      simp [stale_of_listing hlist] at hl
    · rw [if_neg hl] at hload
      cases hpl : PlayList.atId w.db id with
      | none =>
        rw [hpl] at hload
        refine iff_of_false (not_derefs_step hload) ?_
        rintro ⟨_, _, _, _, hid', hat, -⟩
        obtain rfl := Option.some.inj (hid.symm.trans hid')
        simp [hpl] at hat
      | some pl =>
        rw [hpl] at hload
        rw [derefs_step hload (PlayList.after_load _ _),
          derefs_step (outcome_modifyRep _ _) (after_modifyRep _ _)]
        obtain ⟨p, hp⟩ := pl.fields_returns { w with
          rep := (w.rep.setBasicHeaders (lit "txt")).setTemplate (lit "xspf.html") }
        rw [derefs_step hp.outcome hp.after,
          derefs_setHdfValue (template_setTemplate _ (by decide)),
          derefs_setHdfValue (template_setTemplate _ (by decide)),
          derefs_step (outcome_put _ _) (after_put _ _)]
        rw [derefs_songsLoop env hu pl]
        constructor
        · rintro ⟨song, songs, hlist⟩
          refine ⟨id, pl, song, songs, hid, hpl,
            (outcome_listing_congr env pl ?_ ?_ ?_).symm.trans hlist⟩ <;> rfl
        · rintro ⟨id', pl', song, songs, hid', hat, hlist⟩
          obtain rfl := Option.some.inj (hid.symm.trans hid')
          obtain rfl := Option.some.inj (hpl.symm.trans hat)
          refine ⟨song, songs, (outcome_listing_congr env pl ?_ ?_ ?_).trans hlist⟩ <;> rfl

/-! ## All handlers -/

/-- A null user is dereferenced: there is none, `Login` lets the request pass, and the path leads
to `Users`, to `Index`, or to a song in `Xspf`. -/
def Dereferences (env : Env) (req : Request) (w : World) : Prop :=
  req.user = none ∧ Login.Passes req w ∧
    (req.u1 = lit "users" ∨ req.u1 = [] ∨ (req.u1 = lit "xspf" ∧ Xspf.Lists env req w))

theorem spares_throw {α : Type} (e : Exn) : Spares (throw (.exn e) : Run α) :=
  Never.throw (by simp)

theorem spares_pathFrom (fuel : Nat) (d : MusicDir) (names : List Bytes) :
    Spares (d.pathFrom fuel names) := by
  induction fuel generalizing d names with
  | zero =>
    unfold MusicDir.pathFrom
    split
    · exact Never.pure _
    · exact Never.throw (by simp)
  | succ fuel ih =>
    unfold MusicDir.pathFrom
    split
    · exact Never.pure _
    · exact (spares_run _).bind fun p => ih p _

theorem spares_path (song : Spinny.Song) : Spares song.path :=
  (spares_run _).bind fun _ => (Never.get.bind fun _ => spares_pathFrom _ _ _).bind fun _ =>
    Never.pure _

theorem spares_download (env : Env) (song : Spinny.Song) : Spares (Song.download env song) := by
  refine (spares_run _).bind fun _ => (spares_path song).bind fun names => ?_
  split
  · exact spares_throw _
  · exact (spares_run _).bind fun _ => spares_run _

theorem spares_song (env : Env) (req : Request) : Spares (song.handle env req) := by
  change Spares (Song.handle env req)
  unfold Song.handle
  split
  · exact Never.pure _
  split
  · exact spares_throw _
  · refine (spares_run _).bind fun _ => (spares_run _).bind fun _ => (spares_run _).bind fun _ => ?_
    split
    · exact (spares_download env _).bind fun _ => Never.pure _
    · exact Never.pure _

theorem spares_saveOne (env : Env) (json : JsonUser) : Spares (Users.saveOne env json) := by
  have hconv {α : Type} (x : Option α) : Spares (Users.converted x) := by
    cases x
    · exact Never.throw (by simp)
    · exact Never.pure _
  refine (hconv _).bind fun uid => (hconv _).bind fun _ => (hconv _).bind fun _ =>
    (hconv _).bind fun _ => ?_
  split
  · exact (spares_run _).bind fun _ => (spares_run _).bind fun _ => spares_run _
  · exact (spares_run _).bind fun _ => (spares_run _).bind fun _ => spares_run _

theorem spares_save (env : Env) (req : Request) : Spares (Users.save env req) := by
  unfold Users.save
  dsimp only
  split
  · exact spares_throw _
  · exact Never.forM _ fun _ => spares_saveOne env _

theorem spares_requireAuth (u : User) (role : Int) : Spares (requireAuth (some u) role) := by
  unfold requireAuth
  dsimp only
  split
  · exact Never.pure _
  · exact spares_throw _

/-- With a user, or on another path, `Users` spares it. -/
theorem spares_users {env : Env} {req : Request} (h : req.user ≠ none ∨ req.u1 ≠ lit "users") :
    Spares (users.handle env req) := by
  by_cases hu : req.u1 = lit "users"
  · obtain ⟨u, hreq⟩ := Option.ne_none_iff_exists'.mp (h.resolve_right (not_not.mpr hu))
    change Spares (Users.handle env req)
    unfold Users.handle
    rw [if_neg (not_not.mpr hu), hreq]
    refine (spares_requireAuth u _).bind fun _ => (spares_run _).bind fun _ => ?_
    refine Never.bind ?_ fun _ => Never.pure _
    unfold Users.answer
    split
    · exact spares_run _
    split
    · exact spares_run _
    split
    · exact spares_save env req
    · exact Never.pure _
  · rw [users_skip env hu]
    exact Never.pure _

/-- With a user, or on another path, `Index` spares it. -/
theorem spares_index {env : Env} {req : Request} (h : req.user ≠ none ∨ req.u1 ≠ []) :
    Spares (index.handle env req) := by
  by_cases hu : req.u1 = []
  · obtain ⟨u, hreq⟩ := Option.ne_none_iff_exists'.mp (h.resolve_right (not_not.mpr hu))
    change Spares (Index.handle req)
    unfold Index.handle
    rw [if_neg (not_not.mpr hu), hreq]
    exact (spares_run _).bind fun _ => (spares_run _).bind fun _ => Never.pure _
  · rw [index_skip env hu]
    exact Never.pure _

/-- With a user, or on another path, `Xspf` spares it. -/
theorem spares_xspf {env : Env} {req : Request} (h : req.user ≠ none ∨ req.u1 ≠ lit "xspf") :
    Spares (xspf.handle env req) := by
  by_cases hu : req.u1 = lit "xspf"
  · obtain ⟨u, hreq⟩ := Option.ne_none_iff_exists'.mp (h.resolve_right (not_not.mpr hu))
    change Spares (Xspf.handle env req)
    unfold Xspf.handle Xspf.putPlayList
    rw [if_neg (not_not.mpr hu)]
    refine (spares_run _).bind fun _ => (spares_run _).bind fun _ => (spares_run _).bind fun _ =>
      (spares_run _).bind fun _ => (spares_run _).bind fun _ => (spares_run _).bind fun _ =>
      (spares_run _).bind fun _ => (spares_run _).bind fun _ => (spares_run _).bind fun _ =>
      (spares_run _).bind fun _ => ?_
    refine Never.bind ?_ fun _ => (spares_run _).bind fun _ => Never.pure _
    refine Never.forM _ fun s => ?_
    unfold Xspf.putSong
    rw [hreq]
    exact spares_run _
  · rw [xspf_skip env hu]
    exact Never.pure _

theorem spares_files (env : Env) (req : Request) : Spares (files.handle env req) := by
  change Spares (Files.handle env req)
  unfold Files.handle
  split
  · exact Never.throw (by simp)
  · split
    · exact Never.throw (by simp)
    · exact spares_run _

/-- The handlers behind `Xspf` spare a request that `Index` does. -/
theorem spares_rest {env : Env} {req : Request} (h : req.user ≠ none ∨ req.u1 ≠ []) :
    Spares (passOn env req [song, pl, index, tree, info, files]) := by
  refine spares_passOn fun x hx => ?_
  simp only [List.mem_cons, List.not_mem_nil, or_false] at hx
  rcases hx with rfl | rfl | rfl | rfl | rfl | rfl
  · exact spares_song env req
  · exact spares_run _
  · exact spares_index h
  · exact spares_run _
  · exact spares_run _
  · exact spares_files env req

/-- What comes behind `Login`. -/
theorem derefs_afterLogin (env : Env) (req : Request) (w : World) :
    Derefs (passOn env req [users, xspf, song, pl, index, tree, info, files]) w ↔
      req.user = none ∧
        (req.u1 = lit "users" ∨ req.u1 = [] ∨ (req.u1 = lit "xspf" ∧ Xspf.Lists env req w)) := by
  have hlit : lit "xspf" ≠ lit "users" ∧ lit "xspf" ≠ [] ∧ lit "users" ≠ [] := by decide
  by_cases hu : req.user = none
  · by_cases h₁ : req.u1 = lit "users"
    · refine iff_of_true (derefs_passOn_cons.mpr (.inl ?_)) ⟨hu, .inl h₁⟩
      change Derefs (Users.handle env req) w
      unfold Users.handle
      rw [if_neg (not_not.mpr h₁), hu]
      exact derefs_bind.mpr (.inl rfl)
    rw [passOn_skip (users_skip env h₁)]
    by_cases h₂ : req.u1 = lit "xspf"
    · have hrest : Spares (passOn env req [song, pl, index, tree, info, files]) :=
        spares_rest (.inr (h₂ ▸ hlit.2.1))
      have hx : xspf.handle env req = Xspf.putPlayList env req := by
        simp only [xspf, Xspf.handle, h₂, ne_eq, not_true_eq_false, if_false]
      rw [derefs_passOn_cons, or_iff_left fun h => hrest.not_derefs _ h.2, hx,
        derefs_putPlayList env hu]
      simp only [hu, h₂, hlit.1, hlit.2.1, true_and, false_or]
    rw [passOn_skip (xspf_skip env h₂)]
    by_cases h₃ : req.u1 = []
    · have hne (name : String) (h : lit name ≠ []) : req.u1 ≠ lit name := h₃ ▸ Ne.symm h
      rw [passOn_skip (song_skip env (hne "song" (by decide))),
        passOn_skip (pl_skip env (hne "pl" (by decide)))]
      refine iff_of_true (derefs_passOn_cons.mpr (.inl ?_)) ⟨hu, .inr (.inl h₃)⟩
      change Derefs (Index.handle req) w
      unfold Index.handle
      rw [if_neg (not_not.mpr h₃), hu]
      exact (derefs_step (outcome_modifyRep _ _) (after_modifyRep _ _)).mpr rfl
    · refine iff_of_false ((spares_rest (.inr h₃)).not_derefs w) ?_
      rintro ⟨-, h | h | ⟨h, -⟩⟩
      · exact h₁ h
      · exact h₃ h
      · exact h₂ h
  · refine iff_of_false (Spares.not_derefs ?_ w) fun h => hu h.1
    refine spares_passOn fun x hx => ?_
    simp only [List.mem_cons, List.not_mem_nil, or_false] at hx
    rcases hx with rfl | rfl | rfl | rfl | rfl | rfl | rfl | rfl
    · exact spares_users (.inl hu)
    · exact spares_xspf (.inl hu)
    · exact spares_song env req
    · exact spares_run _
    · exact spares_index (.inl hu)
    · exact spares_run _
    · exact spares_run _
    · exact spares_files env req

/-- **No handler dereferences a null user exactly outside of `Dereferences`.** -/
theorem dereferences_iff (env : Env) (req : Request) (w : World) :
    outcome (respond env req) w ≠ .error .nullUser ↔ ¬ Dereferences env req w := by
  refine not_congr ?_
  change Derefs (handleRequest linkUp env req) w ↔ _
  rw [derefs_handleRequest, inPhases_linkUp, derefs_passOn_cons]
  have hlogin : login.handle env req = (Login.handle env req).run := rfl
  have hcont : outcome (Login.handle env req).run w = .ok .continue ↔ Login.Passes req w := by
    rw [← login_continue_iff env, outcome_run]
    cases outcome (Login.handle env req) w <;> simp [Except.mapError]
  rw [hlogin, or_iff_right ((spares_run _).not_derefs w), derefs_afterLogin, hcont, after_run]
  unfold Dereferences
  constructor
  · rintro ⟨hp, hu, h⟩
    rw [after_login hp] at h
    exact ⟨hu, hp, h⟩
  · rintro ⟨hu, hp, h⟩
    rw [after_login hp]
    exact ⟨hp, hu, h⟩

omit [Affinity] in
/-- `/users/list` without a user, over an empty database. -/
theorem users_list_dereferences :
    outcome (@respond integerAffinity (@Env.plain integerAffinity)
      (Request.forUrl (lit "/users/list") ∅))
      (@World.start integerAffinity (@Database.empty integerAffinity)) = .error .nullUser := by
  rfl

end Handlers

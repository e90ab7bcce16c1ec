import Spinny.Frame
import Spinny.Handlers.LinkUp

/-!
# The status line of a reply

`to_buffers` takes the status line before it renders the template, and the constructor of a reply
leaves the status unassigned.

* `StatusLineOf`: the line that is sent is that of the status that is left.
* `statusLine_iff`: it is, but where a template fails to render.
* `Assigns`, `stop_assigns`: the handlers assign the status on each path that stops, but for
  `/song` without `dl`.
* `status_lines_iff`: both.
-/

namespace Handlers

open Bytes Boost Spinny Sqlite Ews Proc

/-! ## `to_buffers` -/

/-- The first buffer is the status line for the status that the reply is left with. -/
def StatusLineOf (render : Renderer) (rep : Reply) : Prop :=
  ∃ s, (rep.finish render).status = some s ∧ (rep.toBuffers render).head? = some s.line

/-- The template is rendered, and rendering it fails. -/
def RenderFails (render : Renderer) (rep : Reply) : Prop :=
  rep.template ≠ [] ∧ rep.status = some .ok ∧
    ∃ left, render rep.template rep.hdf rep.content = .failed left

/-- The line is right unless it has to say that the template failed. -/
theorem statusLine_iff {render : Renderer} {rep : Reply} {s : StatusType}
    (hs : rep.status = some s) : StatusLineOf render rep ↔ ¬ RenderFails render rep := by
  have hline : (rep.toBuffers render).head? = some s.line := by
    unfold Reply.toBuffers Reply.statusLine
    rw [hs]
    rfl
  unfold StatusLineOf
  rw [hline]
  constructor
  · rintro ⟨s', hs', hhead⟩ ⟨htmpl, hok, left, hleft⟩
    obtain rfl := Option.some.inj (hs.symm.trans hok)
    unfold Reply.finish at hs'
    rw [if_pos ⟨htmpl, hok⟩, hleft] at hs'
    obtain rfl := Option.some.inj hs'
    exact absurd hhead (by decide)
  · intro h
    refine ⟨s, ?_, rfl⟩
    unfold Reply.finish
    split_ifs with hrender
    · cases hpage : render rep.template rep.hdf rep.content with
      | page content => exact hs
      | failed left => exact absurd ⟨hrender.1, hrender.2, left, hpage⟩ h
    · exact hs

variable [Affinity] {ε α β γ : Type}

/-! ## Keeping the status -/

/-- A procedure that keeps the status of the reply. -/
abbrev KeepsStatus (x : Proc World ε α) : Prop := Keeps (Same fun w => w.rep.status) x

theorem reads_keepsStatus {x : Proc World ε α} (h : ReadsOnly x) : KeepsStatus x :=
  h.same_of fun s => s.2.status

namespace KeepsStatus

theorem run {x : Act α} (h : KeepsStatus x) : KeepsStatus x.run := h.adapt _

theorem execUpdate (accepted : Bool) (f : Database → Database) :
    KeepsStatus (execUpdate accepted f) := by
  intro w
  rw [Same, after_execUpdate]
  split <;> rfl

theorem put (t : Bytes) : KeepsStatus (put t) := fun _ => rfl

theorem setHdfValue (key : Bytes) (value : HdfValue) : KeepsStatus (setHdfValue key value) := by
  intro w
  rw [Same, after_setHdfValue]
  split <;> rfl

theorem setTemplate (tmpl : Bytes) :
    KeepsStatus (modifyRep fun rep => rep.setTemplate tmpl) := by
  intro w
  rw [Same, after_modifyRep]
  dsimp only [Reply.setTemplate]
  split <;> rfl

theorem putChain (env : Env) (operands : List (Act Bytes)) (h : ∀ x ∈ operands, KeepsStatus x) :
    KeepsStatus (putChain env operands) := by
  unfold Spinny.putChain
  split
  · exact (Keeps.mapM _ h).bind fun _ => put _
  · induction operands with
    | nil => exact Keeps.pure _
    | cons x xs ih =>
      exact ((h x (by simp)).bind fun _ => put _).bind fun _ => ih fun y hy => h y (by simp [hy])

theorem putEach {write : Bytes → α → Act Unit} (h : ∀ t a, KeepsStatus (write t a)) (used : Bool)
    (rows : List α) : KeepsStatus (putEach write used rows) :=
  Keeps.foldlM rows (fun _ _ => (h _ _).bind fun _ => Keeps.pure _) used

end KeepsStatus

/-! ## Assigning the status -/

/-- Whenever `x` returns a value with `P`, the status of the reply has been assigned. -/
def Assigns (P : α → Prop) (x : Proc World ε α) : Prop :=
  ∀ w a, outcome x w = .ok a → P a → (after x w).rep.status ≠ none

namespace Assigns

variable {P : α → Prop} {Q : β → Prop}

theorem pure {a : α} (h : ¬ P a) : Assigns P (Pure.pure a : Proc World ε α) := by
  intro w b hb hP
  obtain rfl := Except.ok.inj hb
  exact absurd hP h

theorem throw (e : ε) : Assigns P (MonadExcept.throw e : Proc World ε α) := by
  intro w b hb
  cases hb

theorem set {f : Reply → Reply} (h : ∀ rep, (f rep).status ≠ none) :
    Assigns (fun _ => True) (modifyRep f) := fun w _ _ _ => h w.rep

theorem bind {x : Proc World ε α} {f : α → Proc World ε β} (hf : ∀ a, Assigns Q (f a)) :
    Assigns Q (x >>= f) := by
  intro w b hb hQ
  cases h : outcome x w with
  | ok a =>
    rw [outcome_bind_ok h] at hb
    rw [after_bind_ok h]
    exact hf a _ b hb hQ
  | error e =>
    rw [outcome_bind_error h] at hb
    cases hb

/-- What comes behind the assignment keeps it. -/
theorem first {x : Proc World ε α} {f : α → Proc World ε β} (hx : Assigns (fun _ => True) x)
    (hf : ∀ a, KeepsStatus (f a)) : Assigns Q (x >>= f) := by
  intro w b hb _
  cases h : outcome x w with
  | ok a =>
    rw [after_bind_ok h, show ((after (f a) (after x w)).rep.status = _) from hf a _]
    exact hx w a h trivial
  | error e =>
    rw [outcome_bind_error h] at hb
    cases hb

theorem run {x : Act α} (h : Assigns P x) : Assigns P x.run :=
  fun w a ha => h w a (ok_of_run ha)

end Assigns

/-- On each path that stops the status is assigned. -/
abbrev StopAssigns (x : Proc World ε RequestStatus) : Prop := Assigns (· = .stop) x

theorem StopAssigns.passes : StopAssigns (Pure.pure .continue : Proc World ε RequestStatus) :=
  Assigns.pure (by decide)

theorem assigns_basicHeaders (ext : Bytes) :
    Assigns (fun _ => True) (modifyRep fun rep => rep.setBasicHeaders ext) :=
  Assigns.set fun rep => by simp [Reply.setBasicHeaders, Reply.setHeader]

/-- A handler that sets the basic headers at its end. -/
theorem assigns_last {x : Proc World ε Unit} {y : Proc World ε Unit}
    (hy : Assigns (fun _ => True) y) :
    StopAssigns (do x; y; return RequestStatus.stop) :=
  Assigns.bind fun _ => hy.first fun _ => Keeps.pure _

variable {env : Env} {req : Request}

theorem tree_assigns : StopAssigns (Tree.handle req) := by
  unfold Tree.handle
  split
  · exact .passes
  · exact Assigns.bind fun _ => Assigns.bind fun _ => assigns_last (assigns_basicHeaders _)

theorem info_assigns : StopAssigns (Info.handle env req) := by
  unfold Info.handle
  split
  · exact .passes
  · exact assigns_last (assigns_basicHeaders _)

theorem pl_assigns : StopAssigns (PL.handle env req) := by
  unfold PL.handle
  split
  · exact .passes
  · refine assigns_last (Assigns.set fun rep => ?_)
    simp [Reply.setBasicHeaders, Reply.setHeader]

theorem files_assigns : StopAssigns (Files.handle env req) := by
  have hsend : ∀ path, StopAssigns (Files.send env req path) := by
    intro path
    unfold Files.send
    split
    · exact Assigns.throw _
    · exact Assigns.bind fun _ => Assigns.bind fun _ =>
        (assigns_basicHeaders _).first fun _ => Keeps.pure _
  unfold Files.handle
  split
  · exact Assigns.throw _
  · split
    · exact Assigns.throw _
    · exact (hsend _).run

theorem saveOne_keepsStatus (json : JsonUser) : KeepsStatus (Users.saveOne env json) := by
  have hconv : ∀ {α : Type} (x : Option α), KeepsStatus (Users.converted x) := by
    intro α x
    cases x
    · exact Keeps.throw _
    · exact Keeps.pure _
  have hcast : ∀ role, KeepsStatus (Spinny.cast (toInt role)).run := fun role =>
    (reads_keepsStatus (.cast _)).run
  have hsave : ∀ u : User, KeepsStatus (User.save u).run := fun u => (KeepsStatus.execUpdate _ _).run
  unfold Users.saveOne
  refine (hconv _).bind fun uid => (hconv _).bind fun login => (hconv _).bind fun password =>
    (hconv _).bind fun role => ?_
  split
  · exact (reads_keepsStatus (.user_load _)).run.bind fun _ => (hcast _).bind fun _ => hsave _
  · exact (reads_keepsStatus (.user_create _ _ _)).run.bind fun _ => (hcast _).bind fun _ => hsave _

theorem users_keepsStatus : KeepsStatus (Users.answer env req) := by
  unfold Users.answer
  split
  · refine KeepsStatus.run ?_
    unfold Users.list
    refine (reads_keepsStatus (.localTime _)).bind fun _ => (reads_keepsStatus (.cast _)).bind
      fun _ => (reads_keepsStatus (.cast _)).bind fun _ => (reads_keepsStatus (.loadRows _ _)).bind
      fun _ => (KeepsStatus.put _).bind fun _ => ?_
    exact (KeepsStatus.putEach (fun _ _ => KeepsStatus.put _) _ _).bind fun _ => KeepsStatus.put _
  · split
    · refine KeepsStatus.run ?_
      unfold Users.del
      refine (reads_keepsStatus (.cast _)).bind fun _ => (reads_keepsStatus (.user_load _)).bind
        fun user => ?_
      unfold User.destroy
      split
      · exact KeepsStatus.execUpdate _ _
      · exact Keeps.pure _
    · split
      · unfold Users.save
        dsimp only
        split
        · exact Keeps.throw _
        · exact Keeps.forM _ fun _ => saveOne_keepsStatus _
      · exact Keeps.pure _

theorem users_assigns : StopAssigns (Users.handle env req) := by
  unfold Users.handle
  split
  · exact .passes
  · exact Assigns.bind fun _ => (assigns_basicHeaders _).run.first fun _ =>
      users_keepsStatus.bind fun _ => Keeps.pure _

theorem putSong_keepsStatus (num : Nat) (song : Spinny.Song) :
    KeepsStatus (Xspf.putSong env req num song) := by
  unfold Xspf.putSong
  split
  · exact Keeps.throw _
  · refine KeepsStatus.run (KeepsStatus.putChain _ _ ?_)
    simp only [List.forall_mem_cons, Keeps.pure, true_and]
    exact ⟨(reads_keepsStatus (.nameOfAlbum _)).bind fun _ => Keeps.pure _,
      (reads_keepsStatus (.nameOfArtist _)).bind fun _ => Keeps.pure _, List.forall_mem_nil _⟩

theorem xspf_assigns : StopAssigns (Xspf.handle env req) := by
  unfold Xspf.handle
  split
  · exact .passes
  · unfold Xspf.putPlayList
    refine (assigns_basicHeaders _).run.first fun _ => ?_
    refine (reads_keepsStatus (.cast _)).run.bind fun _ =>
      (reads_keepsStatus (.playList_load _)).run.bind fun pl =>
      (KeepsStatus.setTemplate _).run.bind fun _ => (reads_keepsStatus (.fields _)).run.bind
      fun _ => (KeepsStatus.setHdfValue _ _).run.bind fun _ =>
      (KeepsStatus.setHdfValue _ _).run.bind fun _ => (KeepsStatus.put _).run.bind fun _ => ?_
    refine (reads_keepsStatus (.songs _ _ _ _)).run.bind fun _ =>
      (reads_keepsStatus (.begin _)).run.bind fun _ => ?_
    refine Keeps.bind (Keeps.forM _ fun _ => putSong_keepsStatus _ _) fun _ => ?_
    exact (KeepsStatus.put _).run.bind fun _ => Keeps.pure _

theorem insertEach_keepsStatus {write : Nat → α → Act Unit} (h : ∀ n a, KeepsStatus (write n a))
    (num : Nat) (rows : List α) : KeepsStatus (Index.insertEach write num rows) :=
  Keeps.forM _ fun _ => h _ _

theorem hdfInsertDirs_keepsStatus : KeepsStatus Index.hdfInsertDirs := by
  have hdir : ∀ n md, KeepsStatus (Index.insertDir n md) := fun n md =>
    (reads_keepsStatus (.execSelect _ _)).bind fun _ =>
      (reads_keepsStatus (.execSelect _ _)).bind fun _ => KeepsStatus.put _
  unfold Index.hdfInsertDirs
  refine (KeepsStatus.put _).bind fun _ => (reads_keepsStatus (.loadRows _ _)).bind fun dirs => ?_
  split
  · exact (reads_keepsStatus (.loadRows _ _)).bind fun _ => (insertEach_keepsStatus hdir _ _).bind
      fun _ => (reads_keepsStatus (.songsWhere _ _)).bind fun _ =>
      (insertEach_keepsStatus (fun _ _ => KeepsStatus.put _) _ _).bind fun _ => KeepsStatus.put _
  · exact (insertEach_keepsStatus hdir _ _).bind fun _ => KeepsStatus.put _

/-- A list of names, or of their starting characters. -/
theorem insertNames_keepsStatus {count : Act Nat} {chars : Act (List (UInt8 × Nat))}
    {all : Act (List α)} {write : Nat → α → Act Unit} {type : UInt8} (hcount : ReadsOnly count)
    (hchars : ReadsOnly chars) (hall : ReadsOnly all) (hwrite : ∀ n a, KeepsStatus (write n a))
    (head : Bytes) :
    KeepsStatus (do
      put head
      if 100 < (← count) then Index.insertChars type (← chars)
      else Index.insertEach write 0 (← all)
      put (lit "\x7d\n")) := by
  refine (KeepsStatus.put _).bind fun _ => (reads_keepsStatus hcount).bind fun n => ?_
  dsimp only
  split
  · exact (reads_keepsStatus hchars).bind fun _ =>
      (insertEach_keepsStatus (fun _ _ => KeepsStatus.put _) _ _).bind fun _ => KeepsStatus.put _
  · exact (reads_keepsStatus hall).bind fun _ => (insertEach_keepsStatus hwrite _ _).bind
      fun _ => KeepsStatus.put _

theorem startingChars_reads (f : Database → List (Bytes × Nat)) :
    ReadsOnly (do (← execText f).mapM startingChar) :=
  (ReadsOnly.execText _).bind fun _ => Keeps.mapM _ fun _ _ => ReadsOnly.startingChar _

theorem fullPage_keepsStatus (user : User) : KeepsStatus (Index.fullPage user) := by
  have halbums : KeepsStatus Index.hdfInsertAlbums :=
    insertNames_keepsStatus (.execSelect _ _) (startingChars_reads _) (.loadRows _ _)
      (fun _ _ => (reads_keepsStatus (.execSelect _ _)).bind fun _ => KeepsStatus.put _) _
  have hartists : KeepsStatus Index.hdfInsertArtists :=
    insertNames_keepsStatus (.execSelect _ _) (startingChars_reads _) (.loadRows _ _)
      (fun _ _ => (reads_keepsStatus (.execSelect _ _)).bind fun _ => KeepsStatus.put _) _
  unfold Index.fullPage
  refine (KeepsStatus.setTemplate _).bind fun _ => hdfInsertDirs_keepsStatus.bind fun _ =>
    halbums.bind fun _ => hartists.bind fun _ => (KeepsStatus.setHdfValue _ _).bind fun _ => ?_
  exact (reads_keepsStatus (.execSelect _ _)).bind fun _ => (KeepsStatus.setHdfValue _ _).bind
    fun _ => (reads_keepsStatus (.execSelect _ _)).bind fun _ =>
    (KeepsStatus.setHdfValue _ _).bind fun _ => (reads_keepsStatus (.execSelect _ _)).bind
    fun _ => KeepsStatus.setHdfValue _ _

theorem index_assigns : StopAssigns (Index.handle req) := by
  unfold Index.handle
  split
  · exact .passes
  · refine (assigns_basicHeaders _).run.first fun _ => ?_
    split
    · exact Keeps.throw _
    · refine Keeps.bind (KeepsStatus.run ?_) fun _ => Keeps.pure _
      unfold Index.page
      split
      · exact fullPage_keepsStatus _
      · exact Keeps.pure _

theorem song_assigns (h : req.u2 = lit "dl") : StopAssigns (Song.handle env req) := by
  unfold Song.handle
  split
  · exact .passes
  · split
    · exact Assigns.throw _
    · refine Assigns.bind fun _ => Assigns.bind fun _ => Assigns.bind fun _ => ?_
      refine Assigns.first ?_ fun _ => Keeps.pure _
      unfold Song.download
      refine Assigns.bind fun _ => Assigns.bind fun _ => ?_
      split
      · exact Assigns.throw _
      · exact Assigns.bind fun _ => (assigns_basicHeaders _).run

/-- The other sub-commands of `/song` stop and leave the status as it was. -/
theorem song_keepsStatus (h : req.u2 ≠ lit "dl") : KeepsStatus (Song.handle env req) := by
  have hcheck : KeepsStatus (Song.checkTicket env req) := by
    unfold Song.checkTicket
    refine (reads_keepsStatus (.loadOne _ _)).bind fun _ =>
      (reads_keepsStatus (.localTime _)).bind fun _ => ?_
    split
    · exact Keeps.throw _
    · exact Keeps.pure _
  unfold Song.handle
  split
  · exact Keeps.pure _
  · split
    · exact Keeps.throw _
    · exact hcheck.run.bind fun _ => (reads_keepsStatus (.cast _)).run.bind fun _ =>
        (reads_keepsStatus (.song_load _)).run.bind fun _ => Keeps.pure _

/-! ## `Login` -/

theorem rep_reads {x : Proc World ε α} (h : ReadsOnly x) (w : World) : (after x w).rep = w.rep :=
  congrArg Prod.snd (h w)

theorem settings_reads (name : Bytes) : ReadsOnly (Settings.get name) := .execSelect _ _

theorem withLogin_reads (login : Bytes) : ReadsOnly (User.withLogin login) := .loadOne _ _

/-- `authen` keeps the reply. -/
theorem rep_authen (u : User) (pass : Bytes) (w : World) :
    (after (u.authen env pass) w).rep = w.rep := by
  have hkeeps : Keeps (Same World.rep) (u.authen env pass) := by
    unfold User.authen
    split
    · refine Keeps.bind (R := Same World.rep) (fun _ => rfl) fun _ => ?_
      refine Keeps.bind (R := Same World.rep) (fun w => ?_) fun _ => Keeps.pure _
      change (after (execUpdate _ _) w).rep = w.rep
      rw [after_execUpdate]
      split <;> rfl
    · exact Keeps.pure _
  exact hkeeps w

/-- Where no template is set, a failed login is an exception: `set_hdf_value` throws. -/
theorem login_assigns {w : World} (ht : w.rep.template = [])
    (h : outcome (Login.handle env req) w = .ok .stop) :
    (after (Login.handle env req) w).rep.status ≠ none := by
  unfold Login.handle at h ⊢
  split_ifs at h ⊢ with hpage hval
  · have hshow : StopAssigns Login.showPage :=
      Assigns.bind fun _ => Assigns.bind fun _ => assigns_last (assigns_basicHeaders _)
    exact hshow w _ h rfl
  · unfold Login.validate at h ⊢
    obtain ⟨mode, hmode, h⟩ := bind_eq_ok.mp h
    rw [after_bind_ok hmode]
    split_ifs at h ⊢ with hmodes
    · cases h
    · obtain ⟨user, huser, h⟩ := bind_eq_ok.mp h
      obtain ⟨found, hfound, h⟩ := bind_eq_ok.mp h
      rw [after_bind_ok huser, after_bind_ok hfound]
      cases found with
      | some u =>
        change some StatusType.movedTemporarily ≠ none
        exact nofun
      | none =>
        -- the template is still unset when the value is set
        have hrep : (after (user.authen env (req.svalue (lit "pass")))
            (after (User.withLogin (req.svalue (lit "login")))
              (after (Settings.get Login.allowGuests) w))).rep.template = [] := by
          rw [rep_authen, rep_reads (withLogin_reads _), rep_reads (settings_reads _)]
          exact ht
        dsimp only at h
        rw [outcome_bind, outcome_setHdfValue, if_pos hrep] at h
        cases h
  · cases h

/-! ## All handlers -/

/-- What a handler that stops leaves unassigned: the status, of a request to `/song` for something
else than `dl`. -/
theorem stop_assigns_iff {h : RequestHandler} (hh : h ∈ linkUp) {w : World} (hw : w.rep = .fresh)
    (hstop : outcome (h.handle env req) w = .ok .stop) :
    (after (h.handle env req) w).rep.status ≠ none ↔ ¬ (h = song ∧ req.u2 ≠ lit "dl") := by
  have hother : ∀ {h' : RequestHandler} (name : Bytes), h'.name = name → name ≠ lit "Song" →
      StopAssigns (h'.handle env req) → h = h' →
      ((after (h.handle env req) w).rep.status ≠ none ↔ ¬ (h = song ∧ req.u2 ≠ lit "dl")) := by
    rintro h' name rfl hname hassigns rfl
    exact iff_of_true (hassigns w _ hstop rfl) fun hs => hname (congrArg RequestHandler.name hs.1)
  simp only [linkUp, List.mem_cons, List.not_mem_nil, or_false] at hh
  obtain rfl | rfl | rfl | rfl | rfl | rfl | rfl | rfl | rfl := hh
  · exact hother (lit "Playlists") rfl (by decide) pl_assigns.run rfl
  · exact hother (lit "Index") rfl (by decide) index_assigns rfl
  · exact hother (lit "Tree") rfl (by decide) tree_assigns.run rfl
  · exact hother (lit "Filesystem") rfl (by decide) files_assigns rfl
  · have hname : lit "Login" ≠ lit "Song" := by decide
    refine iff_of_true ?_ fun hs => hname (congrArg RequestHandler.name hs.1)
    exact login_assigns (by rw [hw]; rfl) (ok_of_run hstop)
  · exact hother (lit "Users") rfl (by decide) users_assigns rfl
  · exact hother (lit "Info") rfl (by decide) info_assigns.run rfl
  · exact hother (lit "Xspf") rfl (by decide) xspf_assigns rfl
  · by_cases hdl : req.u2 = lit "dl"
    · exact iff_of_true (song_assigns hdl w _ hstop rfl) fun hs => hs.2 hdl
    · refine iff_of_false (fun hs => hs ?_) fun hs => hs ⟨rfl, hdl⟩
      have hkept : (after (Song.handle env req) w).rep.status = w.rep.status :=
        song_keepsStatus hdl w
      exact hkept.trans (congrArg Reply.status hw)

/-! ## Whole requests -/

omit [Affinity] in
theorem caught_status (rep : Reply) (e : Exn) : (rep.caught e).status ≠ none := by
  cases e <;> exact nofun

/-- One handler with the `catch` clauses, from a world where it assigns the status. -/
theorem tryHandler_assigns {h : RequestHandler} {w : World}
    (hh : outcome (h.handle env req) w = .ok .stop →
      (after (h.handle env req) w).rep.status ≠ none)
    (hout : outcome (tryHandler env req h) w = .ok .stop) :
    (after (tryHandler env req h) w).rep.status ≠ none := by
  rw [outcome_tryHandler] at hout
  rw [after_tryHandler]
  cases hx : outcome (h.handle env req) w with
  | ok status =>
    rw [hx] at hout
    obtain rfl := Except.ok.inj hout
    exact hh hx
  | error r =>
    cases r with
    | exn e => exact caught_status _ e
    | nullUser => exact absurd hout (by rw [hx]; exact nofun)
    | aborts => exact absurd hout (by rw [hx]; exact nofun)
    | hangs => exact absurd hout (by rw [hx]; exact nofun)

theorem passOn_assigns {hs : List RequestHandler}
    (h : ∀ x ∈ hs, StopAssigns (x.handle env req)) : StopAssigns (passOn env req hs) := by
  induction hs with
  | nil => exact .passes
  | cons x hs ih =>
    intro w a ha hstop
    subst hstop
    rw [passOn] at ha ⊢
    obtain ⟨status, hstatus, ha⟩ := bind_eq_ok.mp ha
    rw [after_bind_ok hstatus]
    cases status with
    | stop => exact tryHandler_assigns (fun hx => h x (by simp) w _ hx rfl) hstatus
    | «continue» => exact ih (fun y hy => h y (by simp [hy])) _ _ ha rfl

/-- The handlers behind `Login`, for a request that is not to `/song` without `dl`. -/
theorem later_assigns (hsong : req.u1 = lit "song" → req.u2 = lit "dl") :
    ∀ x ∈ [users, xspf, song, pl, index, tree, info, files], StopAssigns (x.handle env req) := by
  have hs : StopAssigns (song.handle env req) := by
    by_cases h : req.u1 = lit "song"
    · exact song_assigns (hsong h)
    · change StopAssigns (Song.handle env req)
      unfold Song.handle
      rw [if_pos h]
      exact .passes
  intro x hx
  simp only [List.mem_cons, List.not_mem_nil, or_false] at hx
  obtain rfl | rfl | rfl | rfl | rfl | rfl | rfl | rfl := hx
  · exact users_assigns
  · exact xspf_assigns
  · exact hs
  · exact pl_assigns.run
  · exact index_assigns
  · exact tree_assigns.run
  · exact info_assigns.run
  · exact files_assigns

theorem greetUser_keepsStatus : KeepsStatus (greetUser env req) := by
  unfold greetUser
  refine Keeps.bind (R := Same fun w : World => w.rep.status) (fun _ => rfl) fun _ =>
    Keeps.get.bind fun _ => ?_
  split
  · refine Keeps.bind (R := Same fun w : World => w.rep.status) (fun _ => rfl) fun _ => ?_
    exact (reads_keepsStatus (.localTime _)).bind fun _ => KeepsStatus.execUpdate _ _
  · exact Keeps.pure _

/-- Every other request leaves a status. -/
theorem respond_assigns (hsong : req.u1 = lit "song" → req.u2 = lit "dl") {w : World}
    (hw : w.rep = .fresh) (hout : outcome (respond env req) w = .ok ()) :
    ∃ s, (after (respond env req) w).rep.status = some s := by
  refine Option.ne_none_iff_exists'.mp ?_
  unfold respond handleRequest at hout ⊢
  rw [inPhases_linkUp] at hout ⊢
  obtain ⟨status, hstatus, hout⟩ := bind_eq_ok.mp hout
  obtain ⟨u, hgreet, hout⟩ := bind_eq_ok.mp hout
  rw [after_bind_ok hstatus, after_bind_ok hgreet]
  cases status with
  | «continue» => exact nofun
  | stop =>
    have hkept : ∀ w' : World, (after (greetUser env req) w').rep.status = w'.rep.status :=
      fun w' => greetUser_keepsStatus w'
    change (after (greetUser env req) (after (passOn env req
      [login, users, xspf, song, pl, index, tree, info, files]) w)).rep.status ≠ none
    rw [hkept]
    rw [passOn] at hstatus ⊢
    obtain ⟨status, hlogin, hstatus⟩ := bind_eq_ok.mp hstatus
    rw [after_bind_ok hlogin]
    cases status with
    | stop =>
      refine tryHandler_assigns (fun hx => ?_) hlogin
      exact login_assigns (by rw [hw]; rfl) (ok_of_run hx)
    | «continue» => exact passOn_assigns (later_assigns hsong) _ _ hstatus rfl

/-- The status line is that of the status that is left, but where the template fails to render;
the status is assigned, but where `/song` stops a request for something else than `dl`. -/
theorem status_lines_iff (env : Env) :
    (∀ (rep : Reply) (s : StatusType), rep.status = some s →
      (StatusLineOf env.render rep ↔ ¬ RenderFails env.render rep)) ∧
    (∀ (h : RequestHandler) (req : Request) (w : World), h ∈ linkUp → w.rep = .fresh →
      outcome (h.handle env req) w = .ok .stop →
      ((after (h.handle env req) w).rep.status ≠ none ↔ ¬ (h = song ∧ req.u2 ≠ lit "dl"))) ∧
    ∀ (req : Request) (w : World), (req.u1 = lit "song" → req.u2 = lit "dl") → w.rep = .fresh →
      outcome (respond env req) w = .ok () →
      ∃ s, (after (respond env req) w).rep.status = some s :=
  ⟨fun _ _ hs => statusLine_iff hs, fun _ _ _ hh hw hstop => stop_assigns_iff hh hw hstop,
    fun _ _ hsong hw hout => respond_assigns hsong hw hout⟩

/-- A user with a ticket, and a song. -/
def listener : Database :=
  { Database.empty with
    users := .single 1 ⟨.ofLiteral (lit "a") nulFree_a, .empty, .ofLiteral (lit "b") nulFree_b, 0, 1⟩
    songs := .single 1 ⟨1, 1, 1, .empty, .empty, 0, 0, 0, 0⟩ }

omit [Affinity] in
theorem status_lines_listener : ∃ _ : Affinity,
    (StatusLineOf Env.plain.render (Reply.fresh.setTo .notFound) ↔
      ¬ RenderFails Env.plain.render (Reply.fresh.setTo .notFound)) ∧
    ((after (song.handle .plain (.forUrl (lit "/song/img/b/1") ∅)) (.start listener)).rep.status ≠
      none ↔ ¬ (song = song ∧ (Request.forUrl (lit "/song/img/b/1") ∅).u2 ≠ lit "dl")) ∧
    ∃ s, (after (respond .plain (.forUrl (lit "/") ∅)) (.start listener)).rep.status = some s := by
  let _ : Affinity := integerAffinity
  have hmem : song ∈ linkUp := by simp [linkUp]
  exact ⟨integerAffinity, (status_lines_iff .plain).1 _ .notFound rfl,
    (status_lines_iff .plain).2.1 song (.forUrl (lit "/song/img/b/1") ∅) (.start listener) hmem rfl
      rfl,
    (status_lines_iff .plain).2.2 (.forUrl (lit "/") ∅) (.start listener)
      (fun h => absurd h (by decide)) rfl rfl⟩

omit [Affinity] in
/-- The login page whose template does not render is sent as `200 OK`, and the status of a
request for the image of a song is never assigned. -/
theorem status_lines_wrong : ∃ _ : Affinity,
    (let rep := (after (respond .plain (.forUrl (lit "/") ∅)) (.start .empty)).rep;
      (rep.finish Env.plain.render).status = some .internalServerError ∧
      (rep.toBuffers Env.plain.render).head? = some (StatusType.line .ok)) ∧
    outcome (song.handle .plain (.forUrl (lit "/song/img/b/1") ∅)) (.start listener) = .ok .stop ∧
    (after (respond .plain (.forUrl (lit "/song/img/b/1") ∅)) (.start listener)).rep.status =
      none := by
  refine ⟨integerAffinity, ⟨rfl, rfl⟩, rfl, rfl⟩

end Handlers

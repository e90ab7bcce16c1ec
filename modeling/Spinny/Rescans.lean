import Spinny.Answers
import Spinny.Destroy
import Spinny.Frame

/-!
# The links of the library under rescans

Whatever the file system does, every row that a scan inserts names a directory that exists, and a
directory is deleted after all that names it. So the directories stay a forest, in the states a
scan goes through as in those it ends in.

* `Tended`: what `sync` of a directory does to the tables at most; `syncFrom_tends` goes down the
  levels.
* `Reached.linked`: the links of the library in every state that rescans go through.
* `rescans_traced`: `path` over the rows of such a state. `MusicDir` reads `parent_id` as an `int`,
  so it goes wrong below a directory whose rowid is 2147483648 or more.
-/

namespace Spinny

open Bytes Sqlite Proc

variable [Affinity]

/-! ## The tables of a scan -/

/-- The tables and those a scan went through. -/
def tables (s : Logged) : Database × List Database := (s.db, s.passed)

/-- A procedure that keeps them. -/
abbrev Quiet {α : Type} (x : Scan α) : Prop := Keeps (Same tables) x

theorem Queries.scan {α : Type} {x : Run α} (h : Queries x) : Quiet x.scan := by
  intro s
  have hw : stored (after x s.world) = stored s.world := h s.world
  rw [Same, Run.scan, after_focus]
  refine Prod.ext ?_ rfl
  have hdb := congrArg Prod.fst hw
  exact hdb

theorem Queries.findOrCreate {α : Type} (n : Names α) (name : Bytes) :
    Queries (n.findOrCreate name) := by
  rw [n.findOrCreate_eq]
  exact loadOne _ _

theorem quiet_reading : Quiet reading := fun _ => rfl

section

variable {R : Logged → Logged → Prop} [Std.Refl R] [IsTrans Logged R]

/-- What a reading keeps is kept by a question about a path. -/
theorem keeps_existsAt (h : Keeps R reading) (disk : Disk) (path : List Bytes) :
    Keeps R (disk.existsAt path) := h.bind fun _ => Keeps.pure _

theorem keeps_isDirectory (h : Keeps R reading) (disk : Disk) (path : List Bytes) :
    Keeps R (disk.isDirectory path) := by
  refine h.bind fun n => ?_
  split
  · exact Keeps.pure _
  · exact Keeps.pure _
  · exact Keeps.throw _
  · exact Keeps.throw _

theorem keeps_list (h : Keeps R reading) (disk : Disk) (path : List Bytes) :
    Keeps R (disk.list path) := h.bind fun _ => Keeps.pure _

theorem keeps_readTag (h : Keeps R reading) (disk : Disk) (path : List Bytes) :
    Keeps R (disk.readTag path) := by
  refine h.bind fun n => ?_
  split
  · exact Keeps.pure _
  · exact Keeps.throw _

end

/-- What a change of the tables comes to: it is made and stands in the log, or it is not made. -/
theorem change_tables (accepted : Bool) (f : Database → Database) (s : Logged) :
    (outcome (change accepted f) s = .ok () ∧ accepted = true ∧
      tables (after (change accepted f) s) = (f s.db, f s.db :: s.passed)) ∨
    ((∃ e, outcome (change accepted f) s = .error e) ∧
      tables (after (change accepted f) s) = tables s) := by
  have ho : outcome (execUpdate accepted f).run.scan s =
      ((outcome (execUpdate accepted f) s.world).mapError Raise.exn).mapError Stop.raise := by
    rw [Run.scan, outcome_focus, outcome_run]
  rw [outcome_execUpdate] at ho
  unfold change
  by_cases hc : s.world.stale = true ∨ accepted = false
  · rw [if_pos hc] at ho
    refine .inr ⟨⟨_, outcome_bind_error ho _⟩, ?_⟩
    rw [after_bind_error ho, Run.scan, after_focus, after_run, after_execUpdate, if_pos hc]
    rfl
  · rw [if_neg hc] at ho
    refine .inl ⟨outcome_bind_ok ho _, by simpa using (not_or.mp hc).2, ?_⟩
    rw [after_bind_ok ho, Run.scan, after_focus, after_run, after_execUpdate, if_neg hc]
    rfl

/-! ## What `sync` may do -/

/-- A linked library with rowids as SQLite gives them. -/
structure Sound (db : Database) : Prop where
  linked : Linked db
  dirs : ∀ r ∈ db.musicDirs.rows, 0 < r.1
  songs : ∀ r ∈ db.songs.rows, 0 < r.1

/-- The directory `p` has a row. -/
def HasDir (p : Int) (db : Database) : Prop := ∃ row, (p, row) ∈ db.musicDirs.rows

/-- What `sync` of the directory `p` does at most between `v` and `v'`: the library stays sound on
the way, and the directories that do not lie below `p` stay. -/
structure Tended (p : Int) (v v' : Database × List Database) : Prop where
  sound : Sound v'.1
  passed : ∀ db ∈ v'.2, db ∈ v.2 ∨ Linked db
  spared : ∀ r ∈ v.1.musicDirs.rows, ¬ Below v.1.musicDirs p r.1 → r ∈ v'.1.musicDirs.rows

namespace Tended

variable {p : Int} {v v' v'' : Database × List Database}

theorem refl (h : Sound v.1) : Tended p v v := ⟨h, fun _ hdb => .inl hdb, fun _ hr _ => hr⟩

/-- What did not lie below `p` still does not. -/
theorem not_below (hv : Sound v.1) (h : Tended p v v') {x : Int} {row : DirRow}
    (hr : (x, row) ∈ v.1.musicDirs.rows) (hx : ¬ Below v.1.musicDirs p x) :
    ¬ Below v'.1.musicDirs p x := by
  intro hb
  induction hb using Relation.TransGen.head_induction_on generalizing row with
  | single hxp =>
    obtain ⟨row', hr', hp⟩ := hxp
    obtain rfl := Placed.row_unique (h.spared _ hr hx) hr'
    exact hx (.single ⟨_, hr, hp⟩)
  | @head x y hxy hy ih =>
    obtain ⟨row', hr', hp⟩ := hxy
    obtain rfl := Placed.row_unique (h.spared _ hr hx) hr'
    have hxy' : IsChild v.1.musicDirs x y := ⟨_, hr, hp⟩
    have hy0 : y ≠ 0 := by
      obtain ⟨z, ⟨row'', hr'', -⟩, -⟩ := Relation.TransGen.head'_iff.mp hy
      exact (h.sound.linked.dirs _ hr'').1
    obtain ⟨rowy, hry⟩ := hv.linked.dirs.parent hxy' hy0
    exact ih hry fun hby => hx (hby.head hxy')

theorem trans (hv : Sound v.1) (h : Tended p v v') (h' : Tended p v' v'') : Tended p v v'' where
  sound := h'.sound
  passed db hdb := by
    rcases h'.passed db hdb with hdb | hdb
    · exact h.passed db hdb
    · exact .inr hdb
  spared r hr hb := h'.spared r (h.spared r hr hb) (h.not_below hv hr hb)

theorem hasDir (hv : Sound v.1) (h : Tended p v v') (hp : HasDir p v.1) : HasDir p v'.1 := by
  obtain ⟨row, hr⟩ := hp
  exact ⟨row, h.spared _ hr (hv.linked.dirs.not_below_self p)⟩

/-- What is done to a child is done below its parent. -/
theorem of_child {c : Int} (hc : IsChild v.1.musicDirs c p) (h : Tended c v v') :
    Tended p v v' where
  sound := h.sound
  passed := h.passed
  spared r hr hb := h.spared r hr fun hb' => hb (hb'.tail hc)

/-- What is done to a child leaves the children of its parent. -/
theorem child (hv : Sound v.1) {c x : Int} (hc : IsChild v.1.musicDirs c p)
    (hx : IsChild v.1.musicDirs x p) (h : Tended c v v') : IsChild v'.1.musicDirs x p := by
  obtain ⟨row, hr, hp⟩ := hx
  exact ⟨row, h.spared _ hr (hv.linked.dirs.not_below_sibling hc ⟨row, hr, hp⟩), hp⟩

end Tended

/-! ## Single statements -/

/-- The rowid of a new row is not below 1. -/
theorem Sound.insertDir {db : Database} (h : Sound db) {parentId : Int}
    (hp : parentId = 0 ∨ HasDir parentId db) (name : Text) :
    Sound (db.mapDirs fun t => t.insert ⟨parentId, name⟩) where
  linked := {
    dirs := h.linked.dirs.insert h.dirs hp name
    songs := fun s hs => by
      obtain ⟨row, hrow⟩ := h.linked.songs s hs
      exact ⟨row, Table.mem_rows_insert.mpr (.inl hrow)⟩ }
  dirs r hr := by
    rcases Table.mem_rows_insert.mp hr with hr | rfl
    · exact h.dirs r hr
    · exact db.musicDirs.nextId_pos h.dirs
  songs := h.songs

theorem Sound.insertSong {db : Database} (h : Sound db) {row : SongRow}
    (hd : HasDir row.dirId db) : Sound (db.mapSongs fun t => t.insert row) where
  linked := {
    dirs := h.linked.dirs
    songs := fun s hs => by
      rcases Table.mem_rows_insert.mp hs with hs | rfl
      · exact h.linked.songs s hs
      · exact hd }
  dirs := h.dirs
  songs r hr := by
    rcases Table.mem_rows_insert.mp hr with hr | rfl
    · exact h.songs r hr
    · exact db.songs.nextId_pos h.songs

theorem Sound.deleteSongs {db : Database} (h : Sound db) (p : Int → SongRow → Bool) :
    Sound (db.mapSongs fun t => t.deleteWhere p) where
  linked := {
    dirs := h.linked.dirs
    songs := fun s hs => h.linked.songs s (Table.mem_rows_deleteWhere.mp hs).1 }
  dirs := h.dirs
  songs r hr := h.songs r (Table.mem_rows_deleteWhere.mp hr).1

/-- A change that keeps the directories and the library sound. -/
theorem Tended.changed {p : Int} {v : Database × List Database} {db : Database} (h : Sound db)
    (hdirs : ∀ r ∈ v.1.musicDirs.rows, r ∈ db.musicDirs.rows) : Tended p v (db, db :: v.2) where
  sound := h
  passed db' hdb' := by
    rcases List.mem_cons.mp hdb' with rfl | hdb'
    · exact .inr h.linked
    · exact .inl hdb'
  spared r hr _ := hdirs r hr

section

variable {s : Logged} {p : Int}

/-- A change is made, or the tables are as before. -/
theorem change_tended (hs : Sound s.db) {accepted : Bool} {f : Database → Database}
    (hf : accepted = true → Sound (f s.db))
    (hdirs : accepted = true → ∀ r ∈ s.db.musicDirs.rows, r ∈ (f s.db).musicDirs.rows) :
    Tended p (tables s) (tables (after (change accepted f) s)) := by
  rcases change_tables accepted f s with ⟨-, hacc, ht⟩ | ⟨-, ht⟩
  · rw [ht]
    exact .changed (hf hacc) (hdirs hacc)
  · rw [ht]
    exact .refl hs

theorem Quiet.tended {α : Type} {x : Scan α} (h : Quiet x) (hs : Sound s.db) :
    Tended p (tables s) (tables (after x s)) := by
  rw [h s]
  exact .refl hs

/-- A new directory stands under its parent. -/
theorem saveDir_tended (hs : Sound s.db) {d : MusicDir}
    (hd : d.parentId = 0 ∨ HasDir d.parentId s.db) :
    Tended p (tables s) (tables (after d.saveNew s)) ∧ ∀ d', outcome d.saveNew s = .ok d' →
      IsChild (after d.saveNew s).db.musicDirs d'.dbId d.parentId := by
  unfold MusicDir.saveNew
  rw [after_bind_ok (outcome_get s), after_get, outcome_bind_ok (outcome_get s), after_get]
  have hrow : ∀ {row}, d.toRow = some row → row.parentId = d.parentId := by
    intro row hrow
    unfold MusicDir.toRow at hrow
    split at hrow
    · rw [← Option.some.inj hrow]
    · cases hrow
  rcases change_tables d.toRow.isSome _ s with ⟨ho, hacc, ht⟩ | ⟨⟨e, ho⟩, ht⟩
  · obtain ⟨⟨parentId, name⟩, hd'⟩ := Option.isSome_iff_exists.mp hacc
    obtain rfl := hrow hd'
    rw [after_bind_ok ho, after_pure, outcome_bind_ok ho, outcome_pure, ht]
    simp only [hd'] at ht ⊢
    refine ⟨.changed (hs.insertDir hd name) fun r hr => Table.mem_rows_insert.mpr (.inl hr), ?_⟩
    intro d' hok
    obtain rfl := Except.ok.inj hok
    have hdb := congrArg Prod.fst ht
    dsimp only [tables] at hdb
    rw [hdb]
    exact ⟨_, Table.mem_rows_insert.mpr (.inr rfl), rfl⟩
  · rw [after_bind_error ho, outcome_bind_error ho, ht]
    refine ⟨.refl hs, fun _ hok => ?_⟩
    cases hok

theorem saveSong_tended (hs : Sound s.db) {song : Song} (hd : HasDir song.dirId s.db) :
    Tended p (tables s) (tables (after song.saveNew s)) := by
  unfold Song.saveNew
  rw [after_bind_ok (outcome_get s), after_get, bind_pure_comp, after_map]
  have hrow : ∀ {row}, song.toRow = some row → row.dirId = song.dirId := by
    intro row hrow
    unfold Song.toRow at hrow
    split at hrow
    · rw [← Option.some.inj hrow]
    · cases hrow
  refine change_tended hs (fun hacc => ?_) fun hacc r hr => ?_
  · obtain ⟨row, hsong⟩ := Option.isSome_iff_exists.mp hacc
    simp only [hsong]
    exact hs.insertSong (by rw [hrow hsong]; exact hd)
  · obtain ⟨row, hsong⟩ := Option.isSome_iff_exists.mp hacc
    simp only [hsong]
    exact hr

theorem destroySong_tended (hs : Sound s.db) (song : Song) :
    Tended p (tables s) (tables (after song.destroy s)) := by
  unfold Song.destroy
  split
  · rw [after_bind]
    have hchange : Tended p (tables s) (tables (after (change true
        (.mapSongs fun t => t.deleteWhere fun id _ => id == song.dbId)) s)) :=
      change_tended hs (fun _ => hs.deleteSongs _) fun _ _ hr => hr
    split
    · exact hchange
    · exact hchange
  · exact .refl hs

/-- A refused text in the buffer stops `destroy` before it deletes anything. -/
theorem destroy_refused (hs : s.world.stale = true) (c : MusicDir) :
    tables (after c.destroy s) = tables s := by
  have hchildren : outcome c.children.run.scan s = .error (.raise (.exn .databaseError)) := by
    rw [Run.scan, outcome_focus, outcome_run, MusicDir.children, MusicDir.childrenOf,
      outcome_loadRows, if_pos (.inl hs)]
    rfl
  have hquiet : Quiet c.children.run.scan := Queries.scan (.run (.loadRows _ _))
  unfold MusicDir.destroy
  rw [after_bind_ok (outcome_get s), after_get, MusicDir.destroyFrom, after_bind_error hchildren]
  exact hquiet s

/-- `destroy` of a directory that can be a child of `p` only. -/
theorem destroy_tended (hs : Sound s.db) {c : MusicDir} (hc : c.dbId ≠ 0)
    (hp : ∀ row, (c.dbId, row) ∈ s.db.musicDirs.rows → row.parentId = p) :
    Tended p (tables s) (tables (after c.destroy s)) ∧
      ∀ r ∈ (after c.destroy s).db.musicDirs.rows, r ∈ s.db.musicDirs.rows := by
  cases hstale : s.world.stale with
  | true =>
    have hafter := destroy_refused hstale c
    rw [hafter]
    refine ⟨.refl hs, ?_⟩
    rw [show (after c.destroy s).db = s.db from congrArg Prod.fst hafter]
    exact fun _ h => h
  | false =>
    obtain ⟨-, hgone⟩ := MusicDir.destroy_gone hstale hs.linked.dirs
      (fun r hr => (hs.songs r hr).ne') c
    have hdown : DownClosed s.db.musicDirs (subtree s.db.musicDirs c.dbId) := by
      rintro x y hx (rfl | hy)
      · exact .inr (.single hx)
      · exact .inr (hy.head hx)
    refine ⟨⟨⟨hs.linked.pruned hdown hgone.pruned, fun r hr => ?_, fun r hr => ?_⟩,
      hgone.passed hs.linked, fun r hr hbelow => ?_⟩, hgone.pruned.dirs_subset⟩
    · exact hs.dirs r (hgone.pruned.dirs_subset r hr)
    · exact hs.songs r ((hgone.pruned.songs r).mp hr).1
    · refine (hgone.pruned.dirs r).mpr ⟨hr, ?_⟩
      rintro (hid | hid)
      · exact hbelow (.single ⟨r.2, hr, hp r.2 (hid ▸ hr)⟩)
      · obtain ⟨y, hxy, hy⟩ := Relation.TransGen.tail'_iff.mp hid
        obtain ⟨row, hrow⟩ := hs.linked.dirs.parent hy hc
        exact hbelow (hid.tail ⟨row, hrow, hp row hrow⟩)

/-! ## `sync` -/

/-- What is done to a directory that has a row is done below it. -/
def Tends (sync : MusicDir → Scan Unit) : Prop :=
  ∀ d s, Sound s.db → HasDir d.dbId s.db → Tended d.dbId (tables s) (tables (after (sync d) s))

/-- What is done with a leaf of a directory that has a row leaves all directories. -/
def TendsSongs (create : MusicDir → Bytes → Scan Song) : Prop :=
  ∀ d leaf s p, Sound s.db → HasDir d.dbId s.db →
    Tended p (tables s) (tables (after (create d leaf) s))

/-- Of a directory with a row only the row is not saved again. -/
theorem saveIfNeeded_saved (hs : Sound s.db) {d : MusicDir} (hd : HasDir d.dbId s.db) :
    d.saveIfNeeded = pure d := by
  obtain ⟨row, hrow⟩ := hd
  have := hs.dirs _ hrow
  exact if_neg (ne_of_gt this)

/-- A sequence of two parts in one directory. -/
theorem Tended.bind {α β : Type} {x : Scan α} {f : α → Scan β}
    (hs : Sound s.db) (hx : Tended p (tables s) (tables (after x s)))
    (hf : ∀ a, outcome x s = .ok a →
      Tended p (tables (after x s)) (tables (after (f a) (after x s)))) :
    Tended p (tables s) (tables (after (x >>= f) s)) := by
  cases ho : outcome x s with
  | ok a =>
    rw [after_bind_ok ho]
    exact hx.trans hs (hf a ho)
  | error e =>
    rw [after_bind_error ho]
    exact hx

/-- A quiet part before another one. -/
theorem Tended.after_quiet {α β : Type} {x : Scan α} {f : α → Scan β} (hx : Quiet x)
    (hs : Sound s.db) (hf : ∀ a s', outcome x s = .ok a → s'.db = s.db → Sound s'.db →
      Tended p (tables s') (tables (after (f a) s'))) :
    Tended p (tables s) (tables (after (x >>= f) s)) := by
  have hdb : (after x s).db = s.db := congrArg Prod.fst (hx s)
  exact .bind hs (hx.tended hs) fun a ha => hf a _ ha hdb (hdb ▸ hs)

theorem createFromFile_tends (disk : Disk) : TendsSongs (Song.createFromFile disk) := by
  intro d leaf s p hs hd
  unfold Song.createFromFile
  rw [saveIfNeeded_saved hs hd, pure_bind]
  refine .after_quiet (Queries.scan (.path d)) hs fun path s₁ _ h₁ hs₁ => ?_
  refine .after_quiet (keeps_existsAt quiet_reading disk _) hs₁ fun found s₂ _ h₂ hs₂ => ?_
  split
  · exact Quiet.tended (Keeps.throw _) hs₂
  · refine .after_quiet (keeps_readTag quiet_reading disk _) hs₂ fun tag s₃ _ h₃ hs₃ => ?_
    refine .after_quiet (Queries.scan (.run (.findOrCreate _ _))) hs₃ fun artist s₄ _ h₄ hs₄ => ?_
    refine .after_quiet (Queries.scan (.run (.findOrCreate _ _))) hs₄ fun album s₅ _ h₅ hs₅ => ?_
    refine saveSong_tended hs₅ ?_
    rw [h₅, h₄, h₃, h₂, h₁]
    exact hd

end

section

variable {s : Logged} {p : Int} {d : MusicDir} {create : MusicDir → Bytes → Scan Song} {sync : MusicDir → Scan Unit}

/-- The directories that were not met are children. -/
def Unmet.Within (left : Unmet) (p : Int) (s : Logged) : Prop :=
  ∀ c ∈ left.dirs, IsChild s.db.musicDirs c.dbId p

/-- An entry is dealt with below the directory, and the children not met stay its children. -/
def TendsEntry (p : Int) (left : Unmet) (x : Scan Unmet) : Prop :=
  ∀ s, Sound s.db → HasDir p s.db → left.Within p s →
    Tended p (tables s) (tables (after x s)) ∧
      ∀ left', outcome x s = .ok left' → left'.Within p (after x s)

/-- An entry that is a child: what is done below it, and then the list of those not met. -/
theorem tendsEntry_child (hs : Sound s.db) (hsync : Tends sync) {child : MusicDir} {left : Unmet}
    (hchild : IsChild s.db.musicDirs child.dbId p) (hleft : left.Within p s) :
    Tended p (tables s) (tables (after (sync child) s)) ∧ left.Within p (after (sync child) s) := by
  have hrow : HasDir child.dbId s.db := by
    obtain ⟨row, hr, -⟩ := hchild
    exact ⟨row, hr⟩
  have htended := hsync child s hs hrow
  exact ⟨htended.of_child hchild, fun c hc => htended.child hs hchild (hleft c hc)⟩

/-- What returns a value at its end. -/
theorem tendsEntry_return {x : Scan Unit} {left : Unmet}
    (h : Tended p (tables s) (tables (after x s)) ∧ left.Within p (after x s)) :
    Tended p (tables s) (tables (after (do x; return left) s)) ∧ ∀ left',
      outcome (do x; return left) s = .ok left' →
        left'.Within p (after (do x; return left) s) := by
  cases hx : outcome x s with
  | ok u =>
    rw [after_bind_ok hx, outcome_bind_ok hx]
    refine ⟨h.1, fun left' hok => ?_⟩
    rw [← Except.ok.inj hok]
    exact h.2
  | error e =>
    rw [after_bind_error hx, outcome_bind_error hx]
    exact ⟨h.1, fun _ h => nomatch h⟩

/-- What leaves all directories leaves the children. -/
theorem Unmet.Within.spared {s' : Logged} {left : Unmet} (hs : Sound s.db)
    (hleft : left.Within p s) (h : ∀ c, Tended c (tables s) (tables s')) : left.Within p s' := by
  intro c hc
  obtain ⟨row, hr, hp⟩ := hleft c hc
  exact ⟨row, (h c.dbId).spared _ hr (hs.linked.dirs.not_below_self _), hp⟩

theorem visitDir_tends (hsync : Tends sync) (left : Unmet) (leaf : Bytes) :
    TendsEntry d.dbId left (d.visitDir sync left leaf) := by
  intro s hs hd hleft
  unfold MusicDir.visitDir
  split
  · rename_i child hfind
    refine tendsEntry_return (tendsEntry_child hs hsync
      (hleft child (List.mem_of_find?_eq_some hfind)) fun c hc => ?_)
    exact hleft c (List.mem_of_mem_eraseP hc)
  · have hsaved := fun p => saveDir_tended (p := p) hs (d := d.addChild leaf) (.inr hd)
    cases hx : outcome (d.addChild leaf).saveNew s with
    | error e =>
      rw [after_bind_error hx, outcome_bind_error hx]
      exact ⟨(hsaved _).1, fun _ h => nomatch h⟩
    | ok child =>
      obtain ⟨htended, hleft'⟩ := tendsEntry_return (x := sync child)
        (tendsEntry_child (hsaved 0).1.sound hsync ((hsaved 0).2 child hx)
          (hleft.spared hs fun c => (hsaved c).1))
      rw [after_bind_ok hx, outcome_bind_ok hx]
      exact ⟨(hsaved _).1.trans hs htended, hleft'⟩

/-- What an exception is answered with may change nothing. -/
theorem tables_tryCatch {x : Scan Unit} {f : Stop → Scan Unit} (s : Logged)
    (hf : ∀ e, Quiet (f e)) : tables (after (tryCatch x f) s) = tables (after x s) := by
  rw [after_tryCatch]
  split
  · rfl
  · exact hf _ _

/-- What `visit` answers the exceptions of a file with. -/
def passFileErrors : Stop → Scan Unit
  | .fileError => pure ()
  | e => throw e

/-- A file that raises `file_error` is passed over. -/
theorem tables_recorded (create : MusicDir → Bytes → Scan Song) (d : MusicDir) (leaf : Bytes)
    (s : Logged) : tables (after (tryCatch (do let _ ← create d leaf) passFileErrors) s) =
      tables (after (create d leaf) s) := by
  have hone : after (do let _ ← create d leaf) s = after (create d leaf) s := by
    rw [after_bind]
    cases outcome (create d leaf) s <;> rfl
  rw [tables_tryCatch, hone]
  intro e
  cases e with
  | fileError => exact Keeps.pure _
  | _ => exact Keeps.throw _

theorem visitFile_tends (hcreate : TendsSongs create) (left : Unmet) (leaf : Bytes) :
    TendsEntry d.dbId left (d.visitFile create left leaf) := by
  intro s hs hd hleft
  have hpure : ∀ left' : Unmet, left'.dirs = left.dirs →
      Tended d.dbId (tables s) (tables (after (pure left' : Scan Unmet) s)) ∧
        ∀ left'', outcome (pure left' : Scan Unmet) s = .ok left'' →
          left''.Within d.dbId (after (pure left' : Scan Unmet) s) := by
    refine fun left' hdirs => ⟨.refl hs, fun left'' hok => ?_⟩
    rw [← Except.ok.inj hok, Unmet.Within, hdirs]
    exact hleft
  unfold MusicDir.visitFile
  split
  · split
    · exact hpure _ rfl
    · have hcatch : ∀ p, Tended p (tables s)
          (tables (after (tryCatch (do let _ ← create d leaf) passFileErrors) s)) := by
        intro p
        rw [tables_recorded]
        exact hcreate d leaf s p hs hd
      exact tendsEntry_return ⟨hcatch _, hleft.spared hs hcatch⟩
  · exact hpure _ rfl

theorem visit_tends (disk : Disk) (hcreate : TendsSongs create) (hsync : Tends sync)
    (path : List Bytes) (left : Unmet) (leaf : Bytes) :
    TendsEntry d.dbId left (d.visit disk create sync path left leaf) := by
  intro s hs hd hleft
  have hquiet := keeps_isDirectory quiet_reading disk (path ++ [leaf]) s
  have hdb : (after (disk.isDirectory (path ++ [leaf])) s).db = s.db := congrArg Prod.fst hquiet
  unfold MusicDir.visit
  cases hx : outcome (disk.isDirectory (path ++ [leaf])) s with
  | error e =>
    rw [after_bind_error hx, outcome_bind_error hx, hquiet]
    exact ⟨.refl hs, fun _ h => nomatch h⟩
  | ok isDir =>
    rw [after_bind_ok hx, outcome_bind_ok hx, ← hquiet]
    have hleft' : left.Within d.dbId (after (disk.isDirectory (path ++ [leaf])) s) := by
      rw [Unmet.Within, hdb]
      exact hleft
    split
    · exact visitDir_tends hsync left leaf _ (hdb ▸ hs) (hdb ▸ hd) hleft'
    · exact visitFile_tends hcreate left leaf _ (hdb ▸ hs) (hdb ▸ hd) hleft'

/-- The loop over the entries. -/
theorem visits_tend {f : Unmet → Bytes → Scan Unmet} (hf : ∀ left leaf, TendsEntry p left (f left leaf))
    (leaves : List Bytes) (left : Unmet) : TendsEntry p left (leaves.foldlM f left) := by
  induction leaves generalizing left with
  | nil =>
    intro s hs _ hleft
    refine ⟨.refl hs, fun left' hok => ?_⟩
    rw [← Except.ok.inj hok]
    exact hleft
  | cons leaf leaves ih =>
    intro s hs hp hleft
    rw [List.foldlM_cons]
    obtain ⟨htended, hnext⟩ := hf left leaf s hs hp hleft
    cases hx : outcome (f left leaf) s with
    | error e =>
      rw [after_bind_error hx, outcome_bind_error hx]
      exact ⟨htended, fun _ h => nomatch h⟩
    | ok left' =>
      rw [after_bind_ok hx, outcome_bind_ok hx]
      obtain ⟨hrest, hlast⟩ :=
        ih left' _ htended.sound (htended.hasDir hs hp) (hnext left' hx)
      exact ⟨htended.trans hs hrest, hlast⟩

/-- The directories that were not met are deleted. -/
theorem destroyUnmet_tends (hs : Sound s.db) (l : List MusicDir) (hl : ∀ c ∈ l, c.dbId ≠ 0 ∧
      ∀ row, (c.dbId, row) ∈ s.db.musicDirs.rows → row.parentId = p) :
    Tended p (tables s) (tables (after (l.forM MusicDir.destroy) s)) := by
  induction l generalizing s with
  | nil => exact .refl hs
  | cons c l ih =>
    simp only [List.forall_mem_cons] at hl
    obtain ⟨htended, hfewer⟩ := destroy_tended hs hl.1.1 hl.1.2
    refine .bind hs htended fun _ _ => ih htended.sound fun c hc => ?_
    exact ⟨(hl.2 c hc).1, fun row hr => (hl.2 c hc).2 row (hfewer _ hr)⟩

theorem destroySongs_tends (hs : Sound s.db) (l : List Song) :
    Tended p (tables s) (tables (after (l.forM Song.destroy) s)) := by
  induction l generalizing s with
  | nil => exact .refl hs
  | cons song l ih =>
    have htended := destroySong_tended (p := p) hs song
    exact .bind hs htended fun _ _ => ih htended.sound

/-- What was not met is deleted. -/
theorem deleteUnmet_tends (hs : Sound s.db) {unmet : Unmet} (h : unmet.Within p s) :
    Tended p (tables s) (tables (after (do
      unmet.dirs.forM MusicDir.destroy
      unmet.songs.forM Song.destroy) s)) := by
  have hdirs : Tended p (tables s) (tables (after (unmet.dirs.forM MusicDir.destroy) s)) := by
    refine destroyUnmet_tends hs unmet.dirs fun c hc => ?_
    obtain ⟨row, hr, hp⟩ := h c hc
    exact ⟨(hs.dirs _ hr).ne', fun row' hr' => Placed.row_unique hr hr' ▸ hp⟩
  exact .bind hs hdirs fun _ _ => destroySongs_tends hdirs.sound _

/-- The part of `sync` behind the saving of the directory. -/
def MusicDir.syncSaved (disk : Disk) (create : MusicDir → Bytes → Scan Song) :
    Nat → MusicDir → Scan Unit
  | 0, _ => pure ()
  | left + 1, d => do
    if ← disk.existsAt (← d.path.scan) then
      let dirs ← d.children.run.scan
      let songs ← d.songs.run.scan
      let path ← d.path.scan
      let (leaves, fails) ← disk.list path
      let unmet ← leaves.foldlM (d.visit disk create (MusicDir.syncFrom disk create left) path)
        ⟨dirs, songs⟩
      if fails then throw .filesystemError
      unmet.dirs.forM MusicDir.destroy
      unmet.songs.forM Song.destroy

theorem syncFrom_eq (disk : Disk) (create : MusicDir → Bytes → Scan Song) (left : Nat)
    (d : MusicDir) : d.syncFrom disk create left = (do
      let _ ← d.path.scan
      let d ← d.saveIfNeeded
      d.syncSaved disk create left) := by
  cases left <;> rfl

/-- The children of a directory that has a row. -/
theorem childList_within (songs : List Song) (p : Int) :
    (Unmet.mk (MusicDir.childList s.db p) songs).Within p s := by
  intro c hc
  obtain ⟨row, hr, hp, -⟩ := MusicDir.mem_childList.mp hc
  exact ⟨row, hr, hp⟩

/-- The rows that `children` comes to, without a change of the tables. -/
theorem of_children_ok {l : List MusicDir} (h : outcome d.children.run.scan s = .ok l) :
    l = MusicDir.childList s.db d.dbId := by
  rw [Run.scan, outcome_focus, outcome_run, MusicDir.children, MusicDir.childrenOf,
    outcome_loadRows] at h
  split at h
  · cases h
  · exact (Except.ok.inj h).symm

theorem syncSaved_tends (disk : Disk) (hcreate : TendsSongs create) (left : Nat)
    (hsync : ∀ n, n < left → Tends (MusicDir.syncFrom disk create n)) :
    Tends (MusicDir.syncSaved disk create left) := by
  intro d s hs hd
  cases left with
  | zero => exact .refl hs
  | succ left =>
    unfold MusicDir.syncSaved
    refine .after_quiet (Queries.scan (.path d)) hs fun path s₁ _ h₁ hs₁ => ?_
    refine .after_quiet (keeps_existsAt quiet_reading disk path) hs₁ fun found s₂ _ h₂ hs₂ => ?_
    split
    · refine .after_quiet (Queries.scan (.run (.loadRows _ _))) hs₂ fun dirs s₃ ho h₃ hs₃ => ?_
      obtain rfl := of_children_ok ho
      refine .after_quiet (Queries.scan (.run (.loadRows _ _))) hs₃ fun songs s₄ _ h₄ hs₄ => ?_
      refine .after_quiet (Queries.scan (.path d)) hs₄ fun path s₅ _ h₅ hs₅ => ?_
      refine .after_quiet (keeps_list quiet_reading disk path) hs₅ fun entries s₆ _ h₆ hs₆ => ?_
      have hdb : s₆.db = s.db := by rw [h₆, h₅, h₄, h₃, h₂, h₁]
      have hwithin : (Unmet.mk (MusicDir.childList s₂.db d.dbId) songs).Within d.dbId s₆ := by
        rw [← h₃, ← h₄, ← h₅, ← h₆]
        exact childList_within songs d.dbId
      obtain ⟨htended, hlast⟩ := visits_tend
        (fun unmet leaf => visit_tends disk hcreate (hsync left (Nat.lt_succ_self left)) path unmet leaf)
        entries.1 _ s₆ hs₆ (hdb ▸ hd) hwithin
      refine .bind hs₆ htended fun unmet hunmet => ?_
      split
      · exact .refl htended.sound
      · exact deleteUnmet_tends htended.sound (hlast unmet hunmet)
    · exact .refl hs₂

/-- `sync` of a directory that has a row. -/
theorem syncFrom_tends (disk : Disk) (hcreate : TendsSongs create) (left : Nat) :
    Tends (MusicDir.syncFrom disk create left) := by
  induction left using Nat.strong_induction_on with
  | _ left ih =>
    intro d s hs hd
    rw [syncFrom_eq]
    refine .after_quiet (Queries.scan (.path d)) hs fun _ s₁ _ h₁ hs₁ => ?_
    have hd₁ : HasDir d.dbId s₁.db := h₁ ▸ hd
    rw [saveIfNeeded_saved hs₁ hd₁, pure_bind]
    exact syncSaved_tends disk hcreate left ih d s₁ hs₁ hd₁

end

/-! ## Rescans -/

/-- What a scan of a root does at most: the library stays sound on the way. -/
structure Kept (v v' : Database × List Database) : Prop where
  sound : Sound v'.1
  passed : ∀ db ∈ v'.2, db ∈ v.2 ∨ Linked db

theorem Tended.kept {p : Int} {v v' : Database × List Database} (h : Tended p v v') : Kept v v' :=
  ⟨h.sound, h.passed⟩

theorem Kept.trans {v v' v'' : Database × List Database} (h : Kept v v') (h' : Kept v' v'') :
    Kept v v'' where
  sound := h'.sound
  passed db hdb := by
    rcases h'.passed db hdb with hdb | hdb
    · exact h.passed db hdb
    · exact .inr hdb

theorem Queries.createRoot (path : Bytes) : Queries (MusicDir.createRoot path) := by
  refine (Queries.loadRows _ _).bind fun mds => ?_
  split <;> exact Keeps.pure _

/-- `create_root` comes to the row of a root with the name, or to an object for a new root. -/
theorem createRoot_ok {path : Bytes} {w : World} {d : MusicDir}
    (h : outcome (MusicDir.createRoot path) w = .ok d) :
    (∃ row, (d.dbId, row) ∈ w.db.musicDirs.rows ∧ row.parentId = 0 ∧ row.name.cell = store path ∧
      d = .ofRow d.dbId row) ∨ d = ⟨0, 0, path⟩ := by
  obtain ⟨mds, hmds, h⟩ := bind_eq_ok.mp h
  rw [outcome_loadRows] at hmds
  split at hmds
  · cases hmds
  · have hlist := Except.ok.inj hmds
    cases mds with
    | nil => exact .inr (Except.ok.inj h).symm
    | cons md mds =>
      have hmd : md ∈ (w.db.musicDirs.select fun _ d => d.parentId == 0 &&
          d.name.eqLiteral path).map fun r => MusicDir.ofRow r.1 r.2 := by
        rw [hlist]
        exact List.mem_cons_self
      obtain ⟨r, hr, rfl⟩ := List.mem_map.mp hmd
      obtain rfl := Except.ok.inj h
      obtain ⟨hr, hroot⟩ := Table.mem_select.mp hr
      rw [Bool.and_eq_true, beq_iff_eq, Text.eqLiteral, beq_iff_eq] at hroot
      exact .inl ⟨r.2, hr, hroot.1, hroot.2, rfl⟩

theorem of_createRoot_ok {path : Bytes} {w : World} {d : MusicDir}
    (h : outcome (MusicDir.createRoot path) w = .ok d) :
    HasDir d.dbId w.db ∨ d = ⟨0, 0, path⟩ :=
  (createRoot_ok h).imp_left fun ⟨row, hr, _⟩ => ⟨row, hr⟩

section

variable {s : Logged}

theorem Kept.bind {α β : Type} {x : Scan α} {f : α → Scan β}
    (hx : Kept (tables s) (tables (after x s)))
    (hf : ∀ a, outcome x s = .ok a → Kept (tables (after x s)) (tables (after (f a) (after x s)))) :
    Kept (tables s) (tables (after (x >>= f) s)) := by
  cases ho : outcome x s with
  | ok a =>
    rw [after_bind_ok ho]
    exact hx.trans (hf a ho)
  | error e =>
    rw [after_bind_error ho]
    exact hx

/-- `sync` of a new root. -/
theorem syncRoot_kept (hs : Sound s.db) (disk : Disk) (path : Bytes) :
    Kept (tables s) (tables (after (MusicDir.sync disk ⟨0, 0, path⟩) s)) := by
  have hcreate := createFromFile_tends disk
  unfold MusicDir.sync
  rw [syncFrom_eq]
  have hpath : Quiet (MusicDir.path ⟨0, 0, path⟩).scan := Queries.scan (.path _)
  refine .bind (hpath.tended (p := 0) hs).kept fun _ _ => ?_
  have hs₁ := (hpath.tended (p := 0) hs).sound
  rw [show MusicDir.saveIfNeeded ⟨0, 0, path⟩ = MusicDir.saveNew ⟨0, 0, path⟩ from if_pos rfl]
  obtain ⟨hsaved, hnew⟩ := saveDir_tended (p := 0) hs₁ (d := ⟨0, 0, path⟩) (.inl rfl)
  refine .bind hsaved.kept fun d hd => ?_
  obtain ⟨row, hr, -⟩ := hnew d hd
  exact (syncSaved_tends disk hcreate 255 (fun n _ => syncFrom_tends disk hcreate n) d _
    hsaved.sound ⟨row, hr⟩).kept

theorem initMusicDir_kept (hs : Sound s.db) (disk : Disk) (dir : Bytes) :
    Kept (tables s) (tables (after (initMusicDir disk dir) s)) := by
  have hquiet : Quiet (MusicDir.createRoot dir).run.scan :=
    Queries.scan (.run (.createRoot dir))
  have htended := hquiet.tended (p := 0) hs
  refine .bind htended.kept fun d hd => ?_
  rw [Run.scan, outcome_focus, outcome_run] at hd
  have hroot : outcome (MusicDir.createRoot dir) s.world = .ok d := by
    cases ho : outcome (MusicDir.createRoot dir) s.world with
    | ok d' =>
      rw [ho] at hd
      exact congrArg Except.ok (Except.ok.inj hd)
    | error e =>
      rw [ho] at hd
      cases hd
  have hdb : (after (MusicDir.createRoot dir).run.scan s).db = s.db := congrArg Prod.fst (hquiet s)
  rcases of_createRoot_ok hroot with hrow | rfl
  · have hrow' : HasDir d.dbId (after (MusicDir.createRoot dir).run.scan s).db := by
      rw [hdb]
      exact hrow
    exact (syncFrom_tends disk (createFromFile_tends disk) 255 d _ htended.sound hrow').kept
  · exact syncRoot_kept htended.sound disk dir

theorem rescan_kept (hs : Sound s.db) (disk : Disk) (dirs : List Bytes) :
    Kept (tables s) (tables (after (rescan disk dirs) s)) := by
  unfold rescan
  induction dirs generalizing s with
  | nil => exact ⟨hs, fun _ h => .inl h⟩
  | cons dir dirs ih =>
    have hone := initMusicDir_kept hs disk dir
    exact .bind hone fun _ _ => ih hone.sound

end

/-- A start of the program opens a connection on which nothing was streamed. -/
def Logged.restarted (s : Logged) : Logged := { s with world := { s.world with stale := false } }

/-- Rescans one after the other, each at a start of the program with its own directories and its
own disk; one that throws leaves what it has done. -/
def rescans : List (Disk × List Bytes) → Logged → Logged
  | [], s => s
  | run :: runs, s => rescans runs (after (rescan run.1 run.2) s.restarted)

theorem rescans_kept (runs : List (Disk × List Bytes)) {s : Logged} (hs : Sound s.db) :
    Kept (tables s) (tables (rescans runs s)) := by
  induction runs generalizing s with
  | nil => exact ⟨hs, fun _ h => .inl h⟩
  | cons run runs ih =>
    have hone := rescan_kept (s := s.restarted) hs run.1 run.2
    exact hone.trans (ih hone.sound)

/-- The tables of all states that rescans of an empty library go through. -/
def Reached (runs : List (Disk × List Bytes)) (db : Database) : Prop :=
  db ∈ (rescans runs (.start (.start .empty))).db :: (rescans runs (.start (.start .empty))).passed

theorem empty_sound : Sound Database.empty where
  linked := ⟨fun _ h => (nomatch h), fun _ h => (nomatch h)⟩
  dirs _ h := nomatch h
  songs _ h := nomatch h

/-- The library is linked in every state. -/
theorem Reached.linked {runs : List (Disk × List Bytes)} {db : Database} (h : Reached runs db) :
    Linked db := by
  have hkept := rescans_kept runs (s := .start (.start .empty)) empty_sound
  rcases List.mem_cons.mp h with rfl | h
  · exact hkept.sound.linked
  · exact (hkept.passed db h).resolve_left (fun h => nomatch h)

/-! ## Paths -/

/-- An `int` holds the rowid of every directory that has a subdirectory. -/
def Narrow (db : Database) : Prop :=
  ∀ r ∈ db.musicDirs.rows, -2147483648 ≤ r.2.parentId ∧ r.2.parentId < 2147483648

/-- `path` comes to its end for every row, over parents that are there. -/
structure Traced (w : World) : Prop where
  dirs : ∀ r ∈ w.db.musicDirs.rows, ∃ names, Placed w.db.musicDirs r.1 names ∧
    Returns (MusicDir.ofRow r.1 r.2).path w names w
  songs : ∀ r ∈ w.db.songs.rows, ∃ names, Placed w.db.musicDirs r.2.dirId names ∧
    Returns (Song.ofRow r.1 r.2).path w (names ++ [r.2.fileName.val]) w

section

variable {w : World}

theorem loadDir_returns (hs : w.stale = false) {id : Int} {row : DirRow}
    (hr : (id, row) ∈ w.db.musicDirs.rows) :
    Returns (MusicDir.load id).run w (MusicDir.ofRow id row) w := by
  have hload := loadRow_returns hs Database.musicDirs MusicDir.ofRow hr
  exact ⟨outcome_run_ok hload.outcome, hload.after⟩

/-- The parent that an `int` holds is the parent. -/
theorem parentId_ofRow (hn : Narrow w.db) {id : Int} {row : DirRow}
    (hr : (id, row) ∈ w.db.musicDirs.rows) : (MusicDir.ofRow id row).parentId = row.parentId :=
  toInt32_of_small (hn _ hr).1 (hn _ hr).2

/-- The loop goes up the path of a directory. -/
theorem pathFrom_returns (hs : w.stale = false) (hn : Narrow w.db) {id : Int}
    {names : List Bytes} (hpl : Placed w.db.musicDirs id names) {row : DirRow}
    (hr : (id, row) ∈ w.db.musicDirs.rows) {fuel : Nat} (hfuel : names.length ≤ fuel)
    (below : List Bytes) :
    Returns (MusicDir.pathFrom fuel (MusicDir.ofRow id row) below) w (names ++ below) w := by
  have hparent := parentId_ofRow hn hr
  induction hpl generalizing row fuel below with
  | root hr' =>
    obtain rfl := Placed.row_unique hr hr'
    unfold MusicDir.pathFrom
    rw [if_pos (by rw [MusicDir.isRoot, hparent, beq_self_eq_true])]
    exact .pure _ _
  | @child id parentId name names hr' hne hp ih =>
    obtain rfl := Placed.row_unique hr hr'
    obtain ⟨prow, hprow⟩ := hp.mem
    have hlen : 0 < names.length := List.length_pos_iff.mpr hp.ne_nil
    rw [List.length_append, List.length_singleton] at hfuel
    obtain ⟨fuel, rfl⟩ : ∃ n, fuel = n + 1 := ⟨fuel - 1, by omega⟩
    unfold MusicDir.pathFrom
    rw [if_neg (by rw [MusicDir.isRoot, hparent]; simpa using hne)]
    have hload : Returns (MusicDir.ofRow id ⟨parentId, name⟩).parent.run w
        (MusicDir.ofRow parentId prow) w := by
      rw [MusicDir.parent, hparent]
      exact loadDir_returns hs hprow
    rw [List.append_assoc]
    exact hload.bind (ih hprow (by omega) _ (parentId_ofRow hn hprow))

theorem path_returns (hs : w.stale = false) (hn : Narrow w.db) {id : Int}
    {names : List Bytes} (hpl : Placed w.db.musicDirs id names) {row : DirRow}
    (hr : (id, row) ∈ w.db.musicDirs.rows) : Returns (MusicDir.ofRow id row).path w names w := by
  have hwalk := pathFrom_returns hs hn hpl hr hpl.length_le []
  rw [List.append_nil] at hwalk
  exact Returns.bind (a := w) ⟨rfl, rfl⟩ hwalk

/-- Where an `int` holds all parents, `path` is right for every row of a linked library. -/
theorem traced_of_narrow (hs : w.stale = false) (hl : Linked w.db) (hn : Narrow w.db) :
    Traced w where
  dirs r hr := by
    obtain ⟨-, names, hpl⟩ := hl.dirs r hr
    exact ⟨names, hpl, path_returns hs hn hpl hr⟩
  songs r hr := by
    obtain ⟨row, hrow⟩ := hl.songs r hr
    obtain ⟨-, names, hpl⟩ := hl.dirs _ hrow
    exact ⟨names, hpl, (loadDir_returns hs hrow).bind
      ((path_returns hs hn hpl hrow).bind (.pure _ _))⟩

end

/-! ## The statement buffer -/

/-- Where no refused text stood in the statement buffer, none stands there afterwards. -/
def Unstaled (w w' : World) : Prop := w.stale = false → w'.stale = false

instance : Std.Refl Unstaled := ⟨fun _ => id⟩

instance : IsTrans World Unstaled := ⟨fun _ _ _ h h' hs => h' (h hs)⟩

/-- The same of a scan. -/
def Fresh (s s' : Logged) : Prop := Unstaled s.world s'.world

instance : Std.Refl Fresh := ⟨fun _ => id⟩

instance : IsTrans Logged Fresh := ⟨fun _ _ _ h h' hs => h' (h hs)⟩

theorem Fresh.scan {α : Type} {x : Run α} (h : Keeps Unstaled x) : Keeps Fresh x.scan :=
  fun s => h s.world

/-- A query whose texts hold no NUL. -/
theorem unstaled_loadOne {α : Type} {accepted : Bool} (h : accepted = true)
    (f : Database → List α) : Keeps Unstaled (loadOne accepted f) := by
  intro w hw
  rw [after_loadOne, h]
  simpa using hw

theorem unstaled_loadRows {α : Type} {accepted : Bool} (h : accepted = true)
    (f : Database → List α) : Keeps Unstaled (loadRows accepted f) := by
  intro w hw
  rw [after_loadRows, h]
  simpa using hw

theorem unstaled_path (d : MusicDir) : Keeps Unstaled d.path :=
  keeps_path (fun _ => unstaled_loadOne rfl _) d

/-- A change clears the buffer, whether it is made or refused. -/
theorem fresh_change (accepted : Bool) (f : Database → Database) :
    Keeps Fresh (change accepted f) := by
  have hexec : Keeps Unstaled (execUpdate accepted f) := by
    intro w _
    rw [after_execUpdate]
    split <;> rfl
  exact (Fresh.scan (hexec.adapt Raise.exn)).bind fun _ => Keeps.change fun _ => id

theorem fresh_reading : Keeps Fresh reading := fun _ => id

theorem fresh_saveDir (d : MusicDir) : Keeps Fresh d.saveNew :=
  Keeps.get.bind fun _ => (fresh_change _ _).bind fun _ => Keeps.pure _

theorem fresh_saveIfNeeded (d : MusicDir) : Keeps Fresh d.saveIfNeeded := by
  unfold MusicDir.saveIfNeeded
  split
  · exact fresh_saveDir d
  · exact Keeps.pure _

theorem fresh_destroySong (song : Song) : Keeps Fresh song.destroy := by
  unfold Song.destroy
  split
  · exact (fresh_change _ _).bind fun _ => Keeps.change fun _ => id
  · exact Keeps.pure _

theorem fresh_children (d : MusicDir) : Keeps Fresh d.children.run.scan :=
  Fresh.scan ((unstaled_loadRows rfl _).adapt Raise.exn)

theorem fresh_songs (d : MusicDir) : Keeps Fresh d.songs.run.scan :=
  Fresh.scan ((unstaled_loadRows rfl _).adapt Raise.exn)

theorem fresh_destroy (d : MusicDir) : Keeps Fresh d.destroy := by
  have key : ∀ fuel (d : MusicDir), Keeps Fresh (d.destroyFrom fuel) := by
    intro fuel
    induction fuel with
    | zero => exact fun d => Keeps.throw _
    | succ fuel ih =>
      intro d
      refine (fresh_children d).bind fun dirs => (Keeps.forM dirs ih).bind fun _ => ?_
      refine (fresh_songs d).bind fun songs => (Keeps.forM songs fresh_destroySong).bind fun _ => ?_
      unfold MusicDir.destroyRow
      split
      · exact fresh_change _ _
      · exact Keeps.pure _
  exact Keeps.get.bind fun _ => key _ _

/-- The tags hold no NUL in the texts that are looked up. -/
def Disk.Plain (disk : Disk) : Prop :=
  ∀ n path tag, disk.tag n path = some tag → nulFree tag.artist = true ∧ nulFree tag.album = true

section

variable {disk : Disk}

/-- What follows the reading of a tag. -/
theorem fresh_readTag_bind {α : Type} (h : disk.Plain) (path : List Bytes) {f : Tag → Scan α}
    (hf : ∀ tag, nulFree tag.artist = true → nulFree tag.album = true → Keeps Fresh (f tag)) :
    Keeps Fresh (disk.readTag path >>= f) := by
  unfold Disk.readTag
  rw [bind_assoc]
  refine fresh_reading.bind fun n => ?_
  cases htag : disk.tag n path with
  | none =>
    intro s hs
    rw [after_bind_error (outcome_throw _ _)]
    exact hs
  | some tag =>
    rw [pure_bind]
    exact hf tag (h n path tag htag).1 (h n path tag htag).2

theorem fresh_createFromFile (h : disk.Plain) (d : MusicDir) (name : Bytes) :
    Keeps Fresh (Song.createFromFile disk d name) := by
  refine (fresh_saveIfNeeded d).bind fun d => (Fresh.scan (unstaled_path d)).bind fun path => ?_
  refine (keeps_existsAt fresh_reading disk _).bind fun found => ?_
  split
  · exact Keeps.throw _
  · refine fresh_readTag_bind h _ fun tag hartist halbum => ?_
    have hfind : ∀ {α : Type} (n : Names α) name, nulFree name = true →
        Keeps Fresh (n.findOrCreate name).run.scan := by
      intro α n name hname
      rw [n.findOrCreate_eq]
      exact Fresh.scan ((unstaled_loadOne hname _).adapt Raise.exn)
    refine (hfind artistNames _ hartist).bind fun artist => ?_
    refine (hfind albumNames _ halbum).bind fun album => ?_
    exact Keeps.get.bind fun _ => (fresh_change _ _).bind fun _ => Keeps.pure _

theorem fresh_visit (h : disk.Plain) {sync : MusicDir → Scan Unit}
    (hsync : ∀ d, Keeps Fresh (sync d)) (d : MusicDir) (path : List Bytes) (left : Unmet)
    (leaf : Bytes) :
    Keeps Fresh (d.visit disk (Song.createFromFile disk) sync path left leaf) := by
  refine (keeps_isDirectory fresh_reading disk _).bind fun isDir => ?_
  split
  · unfold MusicDir.visitDir
    split
    · exact (hsync _).bind fun _ => Keeps.pure _
    · exact (fresh_saveDir _).bind fun child => (hsync child).bind fun _ => Keeps.pure _
  · unfold MusicDir.visitFile
    split
    · split
      · exact Keeps.pure _
      · refine (Keeps.tryCatch ?_ fun e => ?_).bind fun _ => Keeps.pure _
        · exact (fresh_createFromFile h d leaf).bind fun _ => Keeps.pure _
        · cases e with
          | fileError => exact Keeps.pure _
          | _ => exact Keeps.throw _
    · exact Keeps.pure _

theorem fresh_syncFrom (h : disk.Plain) (left : Nat) (d : MusicDir) :
    Keeps Fresh (d.syncFrom disk (Song.createFromFile disk) left) := by
  induction left generalizing d with
  | zero =>
    exact (Fresh.scan (unstaled_path d)).bind fun _ => (fresh_saveIfNeeded d).bind fun _ => Keeps.pure _
  | succ left ih =>
    rw [syncFrom_eq]
    refine (Fresh.scan (unstaled_path d)).bind fun _ => (fresh_saveIfNeeded d).bind fun d => ?_
    unfold MusicDir.syncSaved
    refine (Fresh.scan (unstaled_path d)).bind fun path => ?_
    refine (keeps_existsAt fresh_reading disk path).bind fun found => ?_
    split
    · refine (fresh_children d).bind fun dirs => (fresh_songs d).bind fun songs => ?_
      refine (Fresh.scan (unstaled_path d)).bind fun path => ?_
      refine (keeps_list fresh_reading disk path).bind fun entries => ?_
      refine (Keeps.foldlM _ (fun unmet leaf => fresh_visit h ih d path unmet leaf) _).bind
        fun unmet => ?_
      split
      · exact Keeps.throw _
      · exact (Keeps.forM _ fresh_destroy).bind fun _ => Keeps.forM _ fresh_destroySong
    · exact Keeps.pure _

theorem fresh_rescan (h : disk.Plain) {dirs : List Bytes} (hdirs : ∀ dir ∈ dirs, nulFree dir = true) :
    Keeps Fresh (rescan disk dirs) := by
  unfold rescan
  induction dirs with
  | nil => exact Keeps.pure _
  | cons dir dirs ih =>
    simp only [List.forall_mem_cons] at hdirs
    have hroot : Keeps Unstaled (MusicDir.createRoot dir) := by
      refine (unstaled_loadRows hdirs.1 _).bind fun mds => ?_
      split <;> exact Keeps.pure _
    have hone : Keeps Fresh (initMusicDir disk dir) :=
      (Fresh.scan (hroot.adapt Raise.exn)).bind fun d => fresh_syncFrom h 255 d
    exact hone.bind fun _ => ih hdirs.2

end

/-- No configured directory and no tag holds a NUL where it is looked up. -/
def PlainRun (run : Disk × List Bytes) : Prop :=
  run.1.Plain ∧ ∀ dir ∈ run.2, nulFree dir = true

theorem rescans_unstaled {runs : List (Disk × List Bytes)} (h : ∀ run ∈ runs, PlainRun run)
    {s : Logged} (hs : s.world.stale = false) : (rescans runs s).world.stale = false := by
  induction runs generalizing s with
  | nil => exact hs
  | cons run runs ih =>
    simp only [List.forall_mem_cons] at h
    exact ih h.2 (fresh_rescan h.1.1 h.1.2 s.restarted rfl)

/-! ## A rowid that no `int` holds -/

/-- The root number `i`. -/
def rootName (i : Nat) : Bytes := 100 :: decimal i

omit [Affinity] in
theorem nulFree_rootName (i : Nat) : nulFree (rootName i) = true := by
  have h := nulFree_decimal i
  simpa [nulFree, rootName] using h

theorem store_rootName (i : Nat) : store (rootName i) = .text (rootName i) := store_alpha 100 _ rfl

/-- The row of the root number `i`. -/
def rootRow (i : Nat) : DirRow := ⟨0, .ofLiteral (rootName i) (nulFree_rootName i)⟩

theorem eqLiteral_rootName (i j : Nat) :
    (rootRow i).name.eqLiteral (rootName j) = decide (i = j) := by
  have hcell : (rootRow i).name.cell = .text (rootName i) := store_rootName i
  rw [Text.eqLiteral, hcell, store_rootName]
  by_cases h : i = j
  · rw [h, beq_self_eq_true, decide_eq_true rfl]
  · rw [decide_eq_false h, beq_eq_false_iff_ne]
    intro heq
    have hnum := congrArg (foldDigits 0) (List.cons.inj (Cell.text.inj heq)).2
    rw [foldDigits_decimal, foldDigits_decimal] at hnum
    exact h hnum

/-- The table of the first `n` roots. -/
def rootTable : Nat → Table DirRow
  | 0 => .empty
  | n + 1 => (rootTable n).insert (rootRow n)

theorem nextId_rootTable (n : Nat) : (rootTable n).nextId = n + 1 := by
  induction n with
  | zero => rfl
  | succ n ih =>
    rw [rootTable, Table.nextId_insert, ih]
    rfl

theorem mem_rootTable {n : Nat} {r : Int × DirRow} :
    r ∈ (rootTable n).rows ↔ ∃ i < n, r = ((i : Int) + 1, rootRow i) := by
  induction n with
  | zero => simp [rootTable]
  | succ n ih =>
    rw [rootTable, Table.mem_rows_insert, ih, nextId_rootTable]
    constructor
    · rintro (⟨i, hi, rfl⟩ | rfl)
      · exact ⟨i, by omega, rfl⟩
      · exact ⟨n, by omega, rfl⟩
    · rintro ⟨i, hi, rfl⟩
      rcases Nat.lt_succ_iff_lt_or_eq.mp hi with hi | rfl
      · exact .inl ⟨i, hi, rfl⟩
      · exact .inr rfl

/-- Nothing is at any path. -/
def emptyDisk : Disk := ⟨fun _ _ => .missing, fun _ _ => ([], false), fun _ _ => none⟩

/-- Every root holds one directory, which holds nothing. -/
def nestedDisk : Disk where
  status _ _ := .directory
  leaves _ path := (if path.length = 1 then [[120]] else [], false)
  tag _ _ := none

/-- A rescan without the disks of `n + 1` roots, and one of the last root when it is there. -/
def wideRuns (n : Nat) : List (Disk × List Bytes) :=
  [(emptyDisk, (List.range (n + 1)).map rootName), (nestedDisk, [rootName n])]

/-- The library holds these directories and nothing else. -/
structure Filled (t : Table DirRow) (s : Logged) : Prop where
  db : s.db = { Database.empty with musicDirs := t }
  stale : s.world.stale = false

/-- The state after a reading. -/
def Logged.looked (s : Logged) : Logged :=
  { s with world := { s.world with readings := s.world.readings + 1 } }

theorem reading_returns (s : Logged) : Returns reading s s.world.readings s.looked := ⟨rfl, rfl⟩

section

variable {t : Table DirRow} {s : Logged} {m n : Nat}

theorem Filled.dirs (h : Filled t s) : s.db.musicDirs = t := by rw [h.db]

theorem Filled.looked (h : Filled t s) : Filled t s.looked := ⟨h.db, h.stale⟩

theorem Filled.saves (h : Filled t s) (parentId : Int) {name : Bytes} (hn : nulFree name = true) :
    ∃ s', Returns (MusicDir.saveNew ⟨0, parentId, name⟩) s ⟨t.nextId, parentId, name⟩ s' ∧
      Filled (t.insert ⟨parentId, .ofLiteral name hn⟩) s' := by
  have hrow : MusicDir.toRow ⟨0, parentId, name⟩ = some ⟨parentId, .ofLiteral name hn⟩ := dif_pos hn
  refine ⟨s.changed (.mapDirs fun t => t.insert ⟨parentId, .ofLiteral name hn⟩), ?_, ?_, h.stale⟩
  · refine Returns.bind (a := s) ⟨rfl, rfl⟩ ?_
    simp only [hrow, Option.isSome_some, h.dirs]
    exact (change_returns h.stale _).bind (.pure _ _)
  · rw [Logged.db_changed, h.db]
    rfl

/-- The rows of the roots with a name. -/
def rootsNamed (path : Bytes) (db : Database) : List (Int × DirRow) :=
  db.musicDirs.select fun _ d => d.parentId == 0 && d.name.eqLiteral path

theorem createRoot_returns (hs : s.world.stale = false) {path : Bytes}
    (hn : nulFree path = true) :
    Returns (MusicDir.createRoot path).run.scan s
      (((rootsNamed path s.db).map fun r => MusicDir.ofRow r.1 r.2).headD ⟨0, 0, path⟩) s := by
  have hrows := listRows_returns (w := s.world) hs fun db =>
    (rootsNamed path db).map fun r => MusicDir.ofRow r.1 r.2
  have hroot : Returns (MusicDir.createRoot path) s.world
      (((rootsNamed path s.db).map fun r => MusicDir.ofRow r.1 r.2).headD ⟨0, 0, path⟩)
      s.world := by
    unfold MusicDir.createRoot
    rw [hn]
    refine hrows.bind ?_
    rw [Logged.db]
    cases (rootsNamed path s.world.db).map fun r => MusicDir.ofRow r.1 r.2 with
    | nil => exact .pure _ _
    | cons md mds => exact .pure _ _
  exact Run.scan_returns ⟨outcome_run_ok hroot.outcome, hroot.after⟩

theorem mem_rootsNamed (h : s.db.musicDirs = rootTable m) {r : Int × DirRow} :
    r ∈ rootsNamed (rootName n) s.db ↔ n < m ∧ r = ((n : Int) + 1, rootRow n) := by
  rw [rootsNamed, h, Table.mem_select, mem_rootTable]
  constructor
  · rintro ⟨⟨i, hi, rfl⟩, hname⟩
    rw [eqLiteral_rootName, Bool.and_eq_true, decide_eq_true_eq] at hname
    obtain rfl := hname.2
    exact ⟨hi, rfl⟩
  · rintro ⟨hn, rfl⟩
    refine ⟨⟨n, hn, rfl⟩, ?_⟩
    rw [eqLiteral_rootName, decide_eq_true rfl, Bool.and_true]
    rfl

theorem rootPath_returns (w : World) {d : MusicDir} (hd : d.parentId = 0) :
    Returns d.path w [d.name] w := by
  refine Returns.bind (a := w) ⟨rfl, rfl⟩ ?_
  unfold MusicDir.pathFrom
  rw [if_pos (by rw [MusicDir.isRoot, hd, beq_self_eq_true])]
  exact .pure _ _

/-- A root whose disk is not there gets its row. -/
theorem initMusicDir_missing (h : Filled (rootTable n) s) :
    ∃ s', Returns (initMusicDir emptyDisk (rootName n)) s () s' ∧
      Filled (rootTable (n + 1)) s' := by
  have hnew := createRoot_returns h.stale (nulFree_rootName n)
  have hnone : rootsNamed (rootName n) s.db = [] := by
    rw [List.eq_nil_iff_forall_not_mem]
    intro r hr
    exact Nat.lt_irrefl n ((mem_rootsNamed h.dirs).mp hr).1
  rw [hnone, List.map_nil, List.headD_nil] at hnew
  obtain ⟨s', hsave, hs'⟩ := h.saves 0 (nulFree_rootName n)
  refine ⟨s'.looked, hnew.bind ?_, hs'.looked⟩
  unfold MusicDir.sync
  rw [syncFrom_eq]
  refine (Run.scan_returns (rootPath_returns _ rfl)).bind ?_
  rw [show MusicDir.saveIfNeeded ⟨0, 0, rootName n⟩ = MusicDir.saveNew ⟨0, 0, rootName n⟩ from
    if_pos rfl]
  refine hsave.bind ?_
  unfold MusicDir.syncSaved
  refine (Run.scan_returns (rootPath_returns _ rfl)).bind ?_
  exact Returns.bind (a := false) ((reading_returns s').bind (.pure _ _)) (.pure _ _)

theorem rescan_missing (n : Nat) (h : Filled .empty s) :
    ∃ s', Returns (rescan emptyDisk ((List.range n).map rootName)) s () s' ∧
      Filled (rootTable n) s' := by
  induction n with
  | zero => exact ⟨s, .pure _ _, h⟩
  | succ n ih =>
    obtain ⟨s₁, hfirst, h₁⟩ := ih
    obtain ⟨s₂, hlast, h₂⟩ := initMusicDir_missing h₁
    refine ⟨s₂, ?_, h₂⟩
    unfold rescan
    rw [List.range_succ, List.map_append, List.forM_eq_forM, List.forM_append]
    exact hfirst.bind (hlast.bind (.pure _ _))

theorem Filled.children (h : Filled t s) (d : MusicDir)
    (hd : ∀ r ∈ t.rows, r.2.parentId ≠ d.dbId) : Returns d.children.run.scan s [] s := by
  have hnone : MusicDir.childList s.db d.dbId = [] := by
    rw [List.eq_nil_iff_forall_not_mem]
    intro c hc
    obtain ⟨row, hr, hp, -⟩ := MusicDir.mem_childList.mp hc
    rw [h.dirs] at hr
    exact hd _ hr hp
  exact hnone ▸ d.children_returns h.stale

theorem Filled.songs (h : Filled t s) (d : MusicDir) : Returns d.songs.run.scan s [] s := by
  have hnone : MusicDir.songList s.db d.dbId = [] := by
    rw [List.eq_nil_iff_forall_not_mem]
    intro song hsong
    obtain ⟨row, hr, -, -⟩ := MusicDir.mem_songList.mp hsong
    rw [h.db] at hr
    cases hr
  exact hnone ▸ d.songs_returns h.stale

/-- `sync` of a directory without rows below it whose entries leave nothing to delete. -/
theorem syncSaved_nested (h : Filled t s) (d : MusicDir) (hd : ∀ r ∈ t.rows, r.2.parentId ≠ d.dbId)
    (create : MusicDir → Bytes → Scan Song) (left : Nat) {path : List Bytes}
    (hpath : ∀ s', Filled t s' → Returns d.path.scan s' path s') {u : Table DirRow}
    (hvisits : ∀ s', Filled t s' → ∃ s'', Returns ((if path.length = 1 then [[120]] else []).foldlM
      (d.visit nestedDisk create (MusicDir.syncFrom nestedDisk create left) path) ⟨[], []⟩)
        s' ⟨[], []⟩ s'' ∧ Filled u s'') :
    ∃ s', Returns (d.syncSaved nestedDisk create (left + 1)) s () s' ∧ Filled u s' := by
  have h₁ := h.looked
  obtain ⟨s', hvisit, hs'⟩ := hvisits s.looked.looked h₁.looked
  refine ⟨s', ?_, hs'⟩
  unfold MusicDir.syncSaved
  refine (hpath s h).bind ?_
  refine Returns.bind (a := true) ((reading_returns s).bind (.pure _ _)) ?_
  refine (h₁.children d hd).bind ((h₁.songs d).bind ((hpath _ h₁).bind ?_))
  refine Returns.bind ((reading_returns s.looked).bind (.pure _ _)) ?_
  exact hvisit.bind ((Returns.pure _ _).bind (.pure _ _))

/-- The last root, as its row gives it. -/
def lastRoot (n : Nat) : MusicDir := .ofRow (n + 1) (rootRow n)

/-- The row of the directory in the last root. -/
def nestedRow (n : Nat) : DirRow := ⟨n + 1, .ofLiteral [120] (by decide)⟩

/-- The directories with the one in the last root. -/
def nestedTable (n : Nat) : Table DirRow := (rootTable (n + 1)).insert (nestedRow n)

/-- The directory in the last root, as `add_child` and `save` leave it. -/
def nestedDir (n : Nat) : MusicDir := ⟨n + 2, n + 1, [120]⟩

theorem createRoot_last (h : Filled (rootTable (n + 1)) s) :
    Returns (MusicDir.createRoot (rootName n)).run.scan s (lastRoot n) s := by
  have hroot := createRoot_returns h.stale (nulFree_rootName n)
  have hmem := fun r => mem_rootsNamed (n := n) (r := r) h.dirs
  cases hrows : rootsNamed (rootName n) s.db with
  | nil =>
    have hlast := (hmem _).mpr ⟨Nat.lt_succ_self n, rfl⟩
    rw [hrows] at hlast
    cases hlast
  | cons r rows =>
    obtain ⟨-, hr⟩ := (hmem r).mp (hrows ▸ List.mem_cons_self)
    rw [hrows, hr] at hroot
    exact hroot

theorem nestedDir_path (h : Filled (nestedTable n) s) :
    Returns (nestedDir n).path.scan s [(lastRoot n).name, [120]] s := by
  have hrow : ((n : Int) + 1, rootRow n) ∈ s.world.db.musicDirs.rows := by
    rw [show s.world.db.musicDirs = nestedTable n from h.dirs]
    exact Table.mem_rows_insert.mpr (.inl (mem_rootTable.mpr ⟨n, Nat.lt_succ_self n, rfl⟩))
  obtain ⟨fuel, hfuel⟩ : ∃ k, s.world.db.musicDirs.rows.length = k + 1 :=
    ⟨_, (Nat.sub_add_cancel (List.length_pos_of_mem hrow)).symm⟩
  refine Run.scan_returns (Returns.bind (a := s.world) ⟨rfl, rfl⟩ ?_)
  rw [hfuel]
  unfold MusicDir.pathFrom
  have hne : (n : Int) + 1 ≠ 0 := by omega
  rw [if_neg (by simpa [nestedDir, MusicDir.isRoot] using hne)]
  refine (loadDir_returns h.stale hrow).bind ?_
  unfold MusicDir.pathFrom
  exact .pure _ _

theorem nestedDir_syncs (h : Filled (nestedTable n) s) (create : MusicDir → Bytes → Scan Song)
    (left : Nat) :
    ∃ s', Returns (MusicDir.syncFrom nestedDisk create (left + 1) (nestedDir n)) s () s' ∧
      Filled (nestedTable n) s' := by
  have hleaf : ∀ r ∈ (nestedTable n).rows, r.2.parentId ≠ (nestedDir n).dbId := by
    intro r hr
    change r.2.parentId ≠ (n : Int) + 2
    rcases Table.mem_rows_insert.mp hr with hr | rfl
    · obtain ⟨i, -, rfl⟩ := mem_rootTable.mp hr
      change (0 : Int) ≠ n + 2
      omega
    · change (n : Int) + 1 ≠ n + 2
      omega
  obtain ⟨s', hsync, hs'⟩ := syncSaved_nested h (nestedDir n) hleaf create left
    (fun _ => nestedDir_path) fun s' hs' => ⟨s', .pure _ _, hs'⟩
  refine ⟨s', ?_, hs'⟩
  have hne : (n : Int) + 2 ≠ 0 := by omega
  rw [syncFrom_eq]
  refine (nestedDir_path h).bind ?_
  rw [show (nestedDir n).saveIfNeeded = pure (nestedDir n) from if_neg hne, pure_bind]
  exact hsync

/-- The last root gets the directory that is in it. -/
theorem rescan_nested (h : Filled (rootTable (n + 1)) s) :
    ∃ s', Returns (rescan nestedDisk [rootName n]) s () s' ∧ Filled (nestedTable n) s' := by
  have hpath : ∀ s' : Logged, Returns (lastRoot n).path.scan s' [(lastRoot n).name] s' :=
    fun s' => Run.scan_returns (rootPath_returns _ rfl)
  have hleaf : ∀ r ∈ (rootTable (n + 1)).rows, r.2.parentId ≠ (lastRoot n).dbId := by
    intro r hr
    obtain ⟨i, -, rfl⟩ := mem_rootTable.mp hr
    change (0 : Int) ≠ n + 1
    omega
  obtain ⟨s', hsync, hs'⟩ := syncSaved_nested h (lastRoot n) hleaf
    (Song.createFromFile nestedDisk) 254 (fun s' _ => hpath s') (u := nestedTable n) (by
      intro s₁ h₁
      obtain ⟨s₂, hsave, h₂⟩ := h₁.looked.saves (n + 1) (by decide : nulFree [120] = true)
      rw [nextId_rootTable] at hsave
      obtain ⟨s₃, hchild, h₃⟩ := nestedDir_syncs h₂ (Song.createFromFile nestedDisk) 253
      refine ⟨s₃, ?_, h₃⟩
      refine Returns.bind (a := ⟨[], []⟩) ?_ (.pure _ _)
      refine Returns.bind (a := true) ((reading_returns s₁).bind (.pure _ _)) ?_
      have hid : (((n + 1 : Nat) : Int) + 1) = n + 2 := by omega
      rw [hid] at hsave
      exact hsave.bind (hchild.bind (.pure _ _)))
  refine ⟨s', ?_, hs'⟩
  have hne : (n : Int) + 1 ≠ 0 := by omega
  refine Returns.bind (a := ()) ((createRoot_last h).bind ?_) (.pure _ _)
  unfold MusicDir.sync
  rw [syncFrom_eq]
  refine (hpath s).bind ?_
  rw [show (lastRoot n).saveIfNeeded = pure (lastRoot n) from if_neg hne, pure_bind]
  exact hsync

theorem rescans_wide (n : Nat) :
    Filled (nestedTable n) (rescans (wideRuns n) (.start (.start .empty))) := by
  have hempty : Filled .empty (Logged.start (.start .empty)).restarted := ⟨rfl, rfl⟩
  obtain ⟨s₁, hmissing, h₁⟩ := rescan_missing (n + 1) hempty
  have hrestarted : Filled (rootTable (n + 1)) s₁.restarted := ⟨h₁.db, rfl⟩
  obtain ⟨s₂, hnested, h₂⟩ := rescan_nested hrestarted
  simp only [wideRuns, rescans]
  rw [hmissing.after, hnested.after]
  exact h₂

theorem outcome_path (d : MusicDir) (w : World) :
    outcome d.path w = outcome (d.pathFrom w.db.musicDirs.rows.length []) w := rfl

/-- Below a root whose rowid an `int` reads as a negative number `path` finds no parent. -/
theorem nested_not_traced (h : Filled (nestedTable n) s) (hwide : toInt32 (n + 1) < 0) :
    ¬ Traced s.world := by
  intro htraced
  have hdirs : s.world.db.musicDirs = nestedTable n := h.dirs
  have hrow : ((rootTable (n + 1)).nextId, nestedRow n) ∈
      s.world.db.musicDirs.rows := by
    rw [hdirs]
    exact Table.mem_rows_insert.mpr (.inr rfl)
  obtain ⟨names, -, hpath⟩ := htraced.dirs _ hrow
  obtain ⟨fuel, hfuel⟩ : ∃ k, s.world.db.musicDirs.rows.length = k + 1 :=
    ⟨_, (Nat.sub_add_cancel (List.length_pos_of_mem hrow)).symm⟩
  have hnone : s.world.db.musicDirs.lookup (toInt32 (n + 1)) = none := by
    cases hlookup : s.world.db.musicDirs.lookup (toInt32 (n + 1)) with
    | none => rfl
    | some row =>
      have hmem := Table.lookup_eq_some.mp hlookup
      rw [hdirs] at hmem
      rcases Table.mem_rows_insert.mp hmem with hmem | hmem
      · obtain ⟨i, -, hi⟩ := mem_rootTable.mp hmem
        have := congrArg Prod.fst hi
        dsimp only at this
        omega
      · have := congrArg Prod.fst hmem
        rw [nextId_rootTable] at this
        dsimp only at this
        omega
  have hload : outcome (MusicDir.load (toInt32 (n + 1))).run s.world =
      .error (.exn .notFound) := by
    refine outcome_run_error ?_
    rw [MusicDir.load, loadRow, outcome_loadOne, if_neg (by simp [h.stale]), hnone]
    rfl
  have hstep : outcome (MusicDir.pathFrom (fuel + 1)
      (MusicDir.ofRow (rootTable (n + 1)).nextId (nestedRow n)) []) s.world =
        .error (.exn .notFound) := by
    unfold MusicDir.pathFrom
    have hroot : (MusicDir.ofRow (rootTable (n + 1)).nextId (nestedRow n)).isRoot = false :=
      beq_eq_false_iff_ne.mpr hwide.ne
    rw [if_neg (by simp [hroot])]
    exact outcome_bind_error hload _
  have hreturns := hpath.outcome
  rw [outcome_path, hfuel] at hreturns
  cases hreturns.symm.trans hstep

end

/-- The library is linked in every state that rescans go through, and where an `int` holds the
parents, `path` is right for every row. -/
theorem rescans_traced (runs : List (Disk × List Bytes)) :
    (∀ db, Reached runs db → Linked db ∧
      ∀ w : World, w.db = db → w.stale = false → Narrow db → Traced w) ∧
    ((∀ run ∈ runs, PlainRun run) →
      (rescans runs (.start (.start .empty))).world.stale = false) := by
  refine ⟨fun db hdb => ⟨hdb.linked, ?_⟩, fun h => rescans_unstaled h rfl⟩
  rintro w rfl hs hn
  exact traced_of_narrow hs hdb.linked hn

/-- A rescan of so many roots that an `int` reads the rowid of the last as a negative number. -/
theorem wide_untraced {n : Nat} (hwide : toInt32 (n + 1) < 0) :
    let s := rescans (wideRuns n) (.start (.start .empty))
    Reached (wideRuns n) s.db ∧ s.world.stale = false ∧ ¬ Traced s.world :=
  ⟨List.mem_cons_self, (rescans_wide n).stale, nested_not_traced (rescans_wide n) hwide⟩

omit [Affinity] in
/-- A directory in the root with the rowid 2147483648: its row is read with the parent
-2147483648. -/
theorem wide_rescans_untraced : ∃ _ : Affinity,
    let s := rescans (wideRuns 2147483647) (.start (.start .empty))
    Reached (wideRuns 2147483647) s.db ∧ s.world.stale = false ∧ ¬ Traced s.world :=
  ⟨integerAffinity, @wide_untraced integerAffinity 2147483647 (by decide)⟩

end Spinny

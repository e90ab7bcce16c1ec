import Spinny.Rescans

/-!
# What a scan leaves

`sync` deletes the rows of a directory and of a song that none of the leaves it lists stands for,
and a directory goes with everything below it. It does not ask who else names a song. What stays
is what lies under another root, and what the disk has at every reading.

* `Disk.ShowsDir`, `Disk.ShowsFile`: the disk never lets `sync` pass over an entry.
* `Shown`, `Met`: a directory and a song that `sync` cannot pass over.
* `rescan_survives`: what a rescan leaves, in all states it goes through.
-/

namespace Spinny

open Bytes Sqlite Proc

variable [Affinity]

/-! ## What the disk shows -/

/-- A listing that comes to its end has the directory `leaf`, which is never seen as a file. -/
structure Disk.ShowsDir (disk : Disk) (path : List Bytes) (leaf : Bytes) : Prop where
  listed : ∀ n, (disk.leaves n path).2 = true ∨ leaf ∈ (disk.leaves n path).1
  kind : ∀ n, disk.status n (path ++ [leaf]) ≠ .file

/-- The leaves that are stored as the name. -/
def namesakes (name : Bytes) (leaves : List Bytes) : List Bytes :=
  leaves.filter fun leaf => coerce leaf == name

/-- A listing that comes to its end has the file `name` once and nothing else that is stored under
its name; the file is never seen as a directory. -/
structure Disk.ShowsFile (disk : Disk) (path : List Bytes) (name : Bytes) : Prop where
  listed : ∀ n, namesakes name (disk.leaves n path).1 = [name] ∨
    (disk.leaves n path).2 = true ∧ namesakes name (disk.leaves n path).1 = []
  kind : ∀ n, disk.status n (path ++ [name]) ≠ .directory

/-- No row before it has the parent and the name of the row. -/
def First (t : Table DirRow) (r : Int × DirRow) : Prop :=
  ∀ s ∈ t.rows, s.2.parentId = r.2.parentId → s.2.name.val = r.2.name.val → r.1 ≤ s.1

/-- The disk has the directory at the path, and all directories on the way from its root. -/
inductive Shown (disk : Disk) (t : Table DirRow) : Int × DirRow → List Bytes → Prop where
  | root {id : Int} {name : Text} : (id, ⟨0, name⟩) ∈ t.rows → Shown disk t (id, ⟨0, name⟩) [name.val]
  | child {r q : Int × DirRow} {names : List Bytes} : r ∈ t.rows → r.2.parentId = q.1 →
    Shown disk t q names → toInt32 q.1 = q.1 → First t r → disk.ShowsDir names r.2.name.val →
      Shown disk t r (names ++ [r.2.name.val])

/-- The disk has the file of the song, which is the only one of its name in its directory. -/
structure Met (disk : Disk) (db : Database) (r : Int × SongRow) : Prop where
  mem : r ∈ db.songs.rows
  shown : ∃ q names, Shown disk db.musicDirs q names ∧ q.1 = r.2.dirId ∧
    disk.ShowsFile names r.2.fileName.val
  interesting : Song.isInteresting r.2.fileName.val = true
  single : ∀ s ∈ db.songs.rows, s.2.dirId = r.2.dirId →
    s.2.fileName.val = r.2.fileName.val → s.1 = r.1

/-- The root of the directory has none of the names. -/
def Elsewhere (roots : List Bytes) (t : Table DirRow) (x : Int) : Prop :=
  ∃ names, Placed t x names ∧ ∀ root ∈ roots, names.head? ≠ some (coerce root)

/-- The root of the directory has one of the names. -/
def Under (roots : List Bytes) (t : Table DirRow) (x : Int) : Prop :=
  ∃ names, Placed t x names ∧ ∃ root ∈ roots, names.head? = some (coerce root)

/-- A scan of the roots leaves the song. -/
def Survives (disk : Disk) (roots : List Bytes) (db : Database) (r : Int × SongRow) : Prop :=
  r ∈ db.songs.rows ∧ Elsewhere roots db.musicDirs r.2.dirId ∨ Met disk db r

/-! ## Roots -/

section

variable {t : Table DirRow} {roots : List Bytes} {p x : Int}

theorem Under.not_elsewhere (h : Under roots t x) : ¬ Elsewhere roots t x := by
  obtain ⟨names, hpl, root, hroot, hhead⟩ := h
  rintro ⟨names', hpl', hne⟩
  rw [hpl.unique hpl'] at hhead
  exact hne root hroot hhead

/-- A child has the root of its parent. -/
theorem IsChild.head {names : List Bytes} (hp : p ≠ 0) (h : IsChild t x p) (hpl : Placed t p names) :
    ∃ names', Placed t x names' ∧ names'.head? = names.head? := by
  obtain ⟨name, hx⟩ := h.placed hp hpl
  exact ⟨_, hx, List.head?_append_of_ne_nil _ hpl.ne_nil⟩

theorem Under.child (hp : p ≠ 0) (h : Under roots t p) (hx : IsChild t x p) : Under roots t x := by
  obtain ⟨names, hpl, root, hroot, hhead⟩ := h
  obtain ⟨names', hpl', hhead'⟩ := hx.head hp hpl
  exact ⟨names', hpl', root, hroot, hhead'.trans hhead⟩

theorem Under.below (hf : Forest t) (hp : p ≠ 0) (h : Under roots t p) (hx : Below t p x) :
    Under roots t x := by
  induction hx using Relation.TransGen.head_induction_on with
  | single hx => exact h.child hp hx
  | @head x y hxy hy ih =>
    obtain ⟨z, ⟨row, hr, -⟩, -⟩ := Relation.TransGen.head'_iff.mp hy
    exact ih.child (hf _ hr).1 hxy

end

section

variable {p x : Int} {names : List Bytes} {v v' : Database × List Database} {roots : List Bytes}

/-- What is done below `p` leaves the path of what does not lie there. -/
theorem Tended.placed (h : Tended p v v') (hpl : Placed v.1.musicDirs x names)
    (hx : ¬ Below v.1.musicDirs p x) : Placed v'.1.musicDirs x names := by
  induction hpl with
  | root hr => exact .root (h.spared _ hr hx)
  | child hr hp _ ih =>
    exact .child (h.spared _ hr hx) hp (ih fun hb => hx (hb.head ⟨_, hr, rfl⟩))

theorem Tended.elsewhere (hv : Sound v.1) (h : Tended p v v') (hp : p ≠ 0)
    (hu : Under roots v.1.musicDirs p) (hx : Elsewhere roots v.1.musicDirs x) :
    Elsewhere roots v'.1.musicDirs x := by
  obtain ⟨names, hpl, hne⟩ := hx
  refine ⟨names, h.placed hpl fun hb => ?_, hne⟩
  exact (hu.below hv.linked.dirs hp hb).not_elsewhere ⟨names, hpl, hne⟩

theorem Tended.under (hv : Sound v.1) (h : Tended p v v') (hu : Under roots v.1.musicDirs p) :
    Under roots v'.1.musicDirs p := by
  obtain ⟨names, hpl, hroot⟩ := hu
  exact ⟨names, h.placed hpl (hv.linked.dirs.not_below_self p), hroot⟩

end

/-! ## What is spared -/

namespace Shown

variable {disk : Disk} {t t₀ u : Table DirRow} {r : Int × DirRow} {names : List Bytes}

theorem mem (h : Shown disk t r names) : r ∈ t.rows := by
  cases h with
  | root hr => exact hr
  | child hr => exact hr

/-- The parent of a directory that is no root, and what the disk has in it. -/
theorem parent (h : Shown disk t r names) (hp : r.2.parentId ≠ 0) :
    ∃ q names', q.1 = r.2.parentId ∧ Shown disk t q names' ∧ First t r ∧
      disk.ShowsDir names' r.2.name.val := by
  cases h with
  | root hr => exact absurd rfl hp
  | child hr hq hshown _ hfirst hdir => exact ⟨_, _, hq.symm, hshown, hfirst, hdir⟩

/-- What was shown in `t₀` and has been since is still, where the rows stay and none comes in front
of them. -/
theorem pass (hpos : ∀ r ∈ t₀.rows, 0 < r.1)
    (hold : ∀ r names, Shown disk t₀ r names → Shown disk t r names)
    (hrow : ∀ r names, Shown disk t₀ r names → r ∈ u.rows)
    (hfirst : ∀ r ∈ t.rows, First t r → First u r) (h : Shown disk t₀ r names) :
    Shown disk u r names := by
  induction h with
  | root hr => exact .root (hrow _ _ (.root hr))
  | child hr hp hq hn hf hd ih =>
    have hself := Shown.child hr hp hq hn hf hd
    have hne : _ ≠ (0 : Int) := hp ▸ (hpos _ hq.mem).ne'
    obtain ⟨-, -, -, -, hnow, -⟩ := (hold _ _ hself).parent hne
    exact .child (hrow _ _ hself) hp ih hn (hfirst _ (hold _ _ hself).mem hnow) hd

end Shown

/-- Between `v` and `v'` nothing is deleted that a scan of the roots leaves. -/
structure Spares (disk : Disk) (roots : List Bytes) (v v' : Database × List Database) : Prop where
  dirs : ∀ r names, Shown disk v.1.musicDirs r names → Shown disk v'.1.musicDirs r names
  elsewhere : ∀ x, Elsewhere roots v.1.musicDirs x → Elsewhere roots v'.1.musicDirs x
  songs : ∀ r ∈ v.1.songs.rows, Elsewhere roots v.1.musicDirs r.2.dirId → r ∈ v'.1.songs.rows
  met : ∀ r, Met disk v.1 r → Met disk v'.1 r
  passed : ∀ db ∈ v'.2, db ∈ v.2 ∨ ∀ r, Survives disk roots v.1 r → r ∈ db.songs.rows

section

variable {disk : Disk} {roots : List Bytes} {v v' v'' : Database × List Database}

theorem Survives.mem {db : Database} {r : Int × SongRow} (h : Survives disk roots db r) :
    r ∈ db.songs.rows := by
  rcases h with ⟨hr, -⟩ | hmet
  · exact hr
  · exact hmet.mem

theorem Spares.survives (h : Spares disk roots v v') {r : Int × SongRow}
    (hr : Survives disk roots v.1 r) : Survives disk roots v'.1 r := by
  rcases hr with ⟨hr, helse⟩ | hmet
  · exact .inl ⟨h.songs r hr helse, h.elsewhere _ helse⟩
  · exact .inr (h.met r hmet)

theorem Spares.refl (v : Database × List Database) : Spares disk roots v v :=
  ⟨fun _ _ => id, fun _ => id, fun _ hr _ => hr, fun _ => id, fun _ => .inl⟩

theorem Spares.trans (h : Spares disk roots v v') (h' : Spares disk roots v' v'') :
    Spares disk roots v v'' where
  dirs r names hr := h'.dirs r names (h.dirs r names hr)
  elsewhere x hx := h'.elsewhere x (h.elsewhere x hx)
  songs r hr hx := h'.songs r (h.songs r hr hx) (h.elsewhere _ hx)
  met r hr := h'.met r (h.met r hr)
  passed db hdb := by
    rcases h'.passed db hdb with hdb | hdb
    · exact h.passed db hdb
    · exact .inr fun r hr => hdb r (h.survives hr)

/-- What is done below `p` deletes nothing that a scan leaves. -/
structure Tidies (disk : Disk) (roots : List Bytes) (p : Int) (v v' : Database × List Database) :
    Prop where
  tended : Tended p v v'
  spares : Spares disk roots v v'

/-- A directory of a sound library whose root is scanned. -/
structure Scanned (roots : List Bytes) (p : Int) (v : Database × List Database) : Prop where
  sound : Sound v.1
  row : HasDir p v.1
  under : Under roots v.1.musicDirs p

variable {p : Int}

theorem Scanned.ne_zero (h : Scanned roots p v) : p ≠ 0 := by
  obtain ⟨row, hr⟩ := h.row
  exact (h.sound.dirs _ hr).ne'

theorem Tidies.refl (h : Scanned roots p v) : Tidies disk roots p v v := ⟨.refl h.sound, .refl v⟩

/-- A further step. The last three hypotheses are about the songs: those that survive stay, none of
their name comes into their directory, and no state on the way has fewer songs than the end. -/
theorem Tidies.next (hv : Scanned roots p v) (h : Tidies disk roots p v v') (ht : Tended p v' v'')
    (hdirs : ∀ r names, Shown disk v.1.musicDirs r names → r ∈ v''.1.musicDirs.rows)
    (hfirst : ∀ r ∈ v'.1.musicDirs.rows, First v'.1.musicDirs r → First v''.1.musicDirs r)
    (hsongs : ∀ r, Survives disk roots v.1 r → r ∈ v''.1.songs.rows)
    (hnew : ∀ r, Met disk v.1 r → ∀ s ∈ v''.1.songs.rows, s.2.dirId = r.2.dirId →
      s.2.fileName.val = r.2.fileName.val → s ∈ v'.1.songs.rows)
    (hpassed : ∀ db ∈ v''.2, db ∈ v'.2 ∨ ∀ r ∈ v''.1.songs.rows, r ∈ db.songs.rows) :
    Tidies disk roots p v v'' := by
  have htended := h.tended.trans hv.sound ht
  have hshown : ∀ r names, Shown disk v.1.musicDirs r names → Shown disk v''.1.musicDirs r names :=
    fun r names hr => hr.pass hv.sound.dirs h.spares.dirs hdirs hfirst
  refine ⟨htended, hshown, fun x hx => htended.elsewhere hv.sound hv.ne_zero hv.under hx,
    fun r hr hx => hsongs r (.inl ⟨hr, hx⟩), fun r hr => ?_, fun db hdb => ?_⟩
  · obtain ⟨q, names, hq, hdir, hfile⟩ := hr.shown
    refine ⟨hsongs r (.inr hr), ⟨q, names, hshown q names hq, hdir, hfile⟩, hr.interesting, ?_⟩
    intro s hs hsame hname
    exact (h.spares.met r hr).single s (hnew r hr s hs hsame hname) hsame hname
  · rcases hpassed db hdb with hdb | hdb
    · exact h.spares.passed db hdb
    · exact .inr fun r hr => hdb r (hsongs r hr)

end

/-! ## Single statements -/

section

variable {disk : Disk} {roots : List Bytes} {p : Int} {v : Database × List Database} {s : Logged}

/-- What is asked before something else. -/
theorem Quiet.bind_of {α β : Type} {P : Database × List Database → Prop} {x : Scan α}
    {f : α → Scan β} (hx : Quiet x) (hs : P (tables s))
    (hf : ∀ a s', outcome x s = .ok a → tables s' = tables s → P (tables (after (f a) s'))) :
    P (tables (after (x >>= f) s)) := by
  cases ho : outcome x s with
  | ok a =>
    rw [after_bind_ok ho]
    exact hf a _ ho (hx s)
  | error e =>
    rw [after_bind_error ho, hx s]
    exact hs

/-- The state after one change of the tables. -/
def changedTo (db : Database) (s : Logged) : Database × List Database := (db, db :: s.passed)

theorem passed_changedTo {db : Database} : ∀ db' ∈ (changedTo db s).2,
    db' ∈ (tables s).2 ∨ ∀ r ∈ (changedTo db s).1.songs.rows, r ∈ db'.songs.rows := by
  intro db' hdb
  rcases List.mem_cons.mp hdb with rfl | hdb
  · exact .inr fun _ hr => hr
  · exact .inl hdb

theorem saveDir_tables (d : MusicDir) (s : Logged) : tables (after d.saveNew s) = tables s ∨
    ∃ row, tables (after d.saveNew s) = changedTo (s.db.mapDirs fun t => t.insert row) s := by
  unfold MusicDir.saveNew
  rw [after_bind_ok (outcome_get s), after_get, bind_pure_comp, after_map]
  rcases change_tables d.toRow.isSome _ s with ⟨-, hacc, ht⟩ | ⟨-, ht⟩
  · obtain ⟨row, hrow⟩ := Option.isSome_iff_exists.mp hacc
    refine .inr ⟨row, ?_⟩
    rw [ht, hrow]
    rfl
  · exact .inl ht

theorem saveSong_tables (song : Song) (s : Logged) : tables (after song.saveNew s) = tables s ∨
    ∃ row, row.dirId = song.dirId ∧ row.fileName.val = coerce song.fileName ∧
      tables (after song.saveNew s) = changedTo (s.db.mapSongs fun t => t.insert row) s := by
  unfold Song.saveNew
  rw [after_bind_ok (outcome_get s), after_get, bind_pure_comp, after_map]
  rcases change_tables song.toRow.isSome _ s with ⟨-, hacc, ht⟩ | ⟨-, ht⟩
  · obtain ⟨row, hrow⟩ := Option.isSome_iff_exists.mp hacc
    have hfields : row.dirId = song.dirId ∧ row.fileName.val = coerce song.fileName := by
      unfold Song.toRow at hrow
      split at hrow
      · rw [← Option.some.inj hrow]
        exact ⟨rfl, rfl⟩
      · cases hrow
    refine .inr ⟨row, hfields.1, hfields.2, ?_⟩
    rw [ht, hrow]
    rfl
  · exact .inl ht

theorem destroySong_tables (song : Song) (s : Logged) :
    tables (after song.destroy s) = tables s ∨ tables (after song.destroy s) =
      changedTo (s.db.mapSongs fun t => t.deleteWhere fun id _ => id == song.dbId) s := by
  unfold Song.destroy
  split
  · have hlog : ∀ s' : Logged, tables (after (modify fun l : Logged =>
        { l with events := .deleted song.dbId :: l.events } : Scan Unit) s') = tables s' :=
      fun _ => rfl
    rcases change_tables true (.mapSongs fun t => t.deleteWhere fun id _ => id == song.dbId) s with
      ⟨ho, -, ht⟩ | ⟨⟨e, ho⟩, ht⟩
    · rw [after_bind_ok ho, hlog, ht]
      exact .inr rfl
    · rw [after_bind_error ho]
      exact .inl ht
  · exact .inl rfl

/-- A new directory comes behind the others. -/
theorem spares_saveDir (hs : Sound s.db) (d : MusicDir) :
    Spares disk roots (tables s) (tables (after d.saveNew s)) := by
  rcases saveDir_tables d s with heq | ⟨row, heq⟩
  · rw [heq]
    exact .refl _
  · rw [heq]
    have hkeep : ∀ r ∈ s.db.musicDirs.rows, r ∈ (s.db.musicDirs.insert row).rows :=
      fun r hr => Table.mem_rows_insert.mpr (.inl hr)
    have hfirst : ∀ r ∈ s.db.musicDirs.rows, First s.db.musicDirs r →
        First (s.db.musicDirs.insert row) r := by
      intro r hr hfirst q hq hparent hname
      rcases Table.mem_rows_insert.mp hq with hq | rfl
      · exact hfirst q hq hparent hname
      · exact (s.db.musicDirs.lt_nextId r hr).le
    have hshown : ∀ r names, Shown disk s.db.musicDirs r names →
        Shown disk (s.db.musicDirs.insert row) r names :=
      fun r names hr => hr.pass hs.dirs (fun _ _ => id) (fun _ _ hr => hkeep _ hr.mem) hfirst
    refine ⟨hshown, fun x ⟨names, hpl, hne⟩ => ⟨names, hpl.mono hkeep, hne⟩, fun _ hr _ => hr,
      fun r hr => ?_, fun db hdb => ?_⟩
    · obtain ⟨q, names, hq, hdir, hfile⟩ := hr.shown
      exact ⟨hr.mem, ⟨q, names, hshown q names hq, hdir, hfile⟩, hr.interesting, hr.single⟩
    · exact (passed_changedTo db hdb).imp_right fun hall r hr => hall r hr.mem

namespace Tidies

theorem saveDir (h : Tidies disk roots p v (tables s)) (hv : Scanned roots p v) {d : MusicDir}
    (hd : d.parentId = 0 ∨ HasDir d.parentId s.db) :
    Tidies disk roots p v (tables (after d.saveNew s)) :=
  ⟨h.tended.trans hv.sound (saveDir_tended h.tended.sound hd).1,
    h.spares.trans (spares_saveDir h.tended.sound d)⟩

/-- A new song of another name. -/
theorem saveSong (hv : Scanned roots p v) (h : Tidies disk roots p v (tables s)) {song : Song}
    (hd : HasDir song.dirId s.db) (hname : ∀ r, Met disk v.1 r → r.2.dirId = song.dirId →
      r.2.fileName.val ≠ coerce song.fileName) :
    Tidies disk roots p v (tables (after song.saveNew s)) := by
  have ht : Tended p (tables s) (tables (after song.saveNew s)) :=
    saveSong_tended h.tended.sound hd
  rcases saveSong_tables song s with heq | ⟨row, hdir, hfile, heq⟩
  · rw [heq]
    exact h
  · rw [heq] at ht ⊢
    refine h.next hv ht (fun r names hr => (h.spares.dirs r names hr).mem) (fun _ _ hf => hf)
      (fun r hr => ?_) (fun r hr q hq hsame hsameName => ?_) passed_changedTo
    · exact Table.mem_rows_insert.mpr (.inl (h.spares.survives hr).mem)
    · rcases Table.mem_rows_insert.mp hq with hq | rfl
      · exact hq
      · refine absurd ?_ (hname r hr (hsame.symm.trans hdir))
        rw [← hsameName, hfile]

/-- A song that does not survive is deleted. -/
theorem destroySong (hv : Scanned roots p v) (h : Tidies disk roots p v (tables s)) {song : Song}
    (hsong : ∀ r, Survives disk roots v.1 r → r.1 ≠ song.dbId) :
    Tidies disk roots p v (tables (after song.destroy s)) := by
  have ht : Tended p (tables s) (tables (after song.destroy s)) :=
    destroySong_tended h.tended.sound song
  rcases destroySong_tables song s with heq | heq
  · rw [heq]
    exact h
  · rw [heq] at ht ⊢
    refine h.next hv ht (fun r names hr => (h.spares.dirs r names hr).mem) (fun _ _ hf => hf)
      (fun r hr => ?_) (fun r _ q hq _ _ => ?_) passed_changedTo
    · refine Table.mem_rows_deleteWhere.mpr ⟨(h.spares.survives hr).mem, ?_⟩
      exact beq_eq_false_iff_ne.mpr (hsong r hr)
    · exact (Table.mem_rows_deleteWhere.mp hq).1

end Tidies

end

/-! ## Deleting directories -/

/-- Songs are deleted only. -/
structure Shrinks (s s' : Logged) : Prop where
  songs : ∀ r ∈ s'.db.songs.rows, r ∈ s.db.songs.rows
  passed : ∀ db ∈ s'.passed, db ∈ s.passed ∨ ∀ r ∈ s'.db.songs.rows, r ∈ db.songs.rows

instance : Std.Refl Shrinks := ⟨fun _ => ⟨fun _ => id, fun _ => .inl⟩⟩

instance : IsTrans Logged Shrinks := ⟨fun _ _ _ h h' => {
  songs r hr := h.songs r (h'.songs r hr)
  passed db hdb := by
    rcases h'.passed db hdb with hdb | hdb
    · exact (h.passed db hdb).imp_right fun hall r hr => hall r (h'.songs r hr)
    · exact .inr hdb }⟩

theorem shrinks_of_tables {s s' : Logged} (h : tables s' = tables s) : Shrinks s s' := by
  have hdb : s'.db = s.db := congrArg Prod.fst h
  have hpassed : s'.passed = s.passed := congrArg Prod.snd h
  exact ⟨fun r hr => hdb ▸ hr, fun db hdb => .inl (hpassed ▸ hdb)⟩

theorem Quiet.shrinks {α : Type} {x : Scan α} (hx : Quiet x) : Keeps Shrinks x :=
  fun s => shrinks_of_tables (hx s)

theorem shrinks_change {accepted : Bool} {f : Database → Database}
    (hf : ∀ db, ∀ r ∈ (f db).songs.rows, r ∈ db.songs.rows) :
    Keeps Shrinks (change accepted f) := by
  intro s
  rcases change_tables accepted f s with ⟨-, -, ht⟩ | ⟨-, ht⟩
  · have hdb : (after (change accepted f) s).db = f s.db := congrArg Prod.fst ht
    have hpassed : (after (change accepted f) s).passed = f s.db :: s.passed := congrArg Prod.snd ht
    refine ⟨fun r hr => hf s.db r (hdb ▸ hr), fun db hdb' => ?_⟩
    rw [hpassed] at hdb'
    rcases List.mem_cons.mp hdb' with rfl | hdb'
    · exact .inr fun r hr => hdb ▸ hr
    · exact .inl hdb'
  · exact shrinks_of_tables ht

theorem shrinks_destroySong (song : Song) : Keeps Shrinks song.destroy := by
  unfold Song.destroy
  split
  · exact (shrinks_change fun _ _ hr => (Table.mem_rows_deleteWhere.mp hr).1).bind fun _ =>
      Keeps.change fun _ => ⟨fun _ => id, fun _ => .inl⟩
  · exact Keeps.pure _

theorem shrinks_destroyFrom (fuel : Nat) (d : MusicDir) : Keeps Shrinks (d.destroyFrom fuel) := by
  induction fuel generalizing d with
  | zero => exact Keeps.throw _
  | succ fuel ih =>
    have hrows : ∀ {α : Type} (f : Database → List α), Keeps Shrinks (loadRows true f).run.scan :=
      fun f => (Queries.scan (.run (.loadRows _ f))).shrinks
    refine (hrows _).bind fun dirs => (Keeps.forM dirs ih).bind fun _ => ?_
    refine (hrows _).bind fun songs => (Keeps.forM songs shrinks_destroySong).bind fun _ => ?_
    unfold MusicDir.destroyRow
    split
    · exact shrinks_change fun _ _ hr => hr
    · exact Keeps.pure _

theorem shrinks_destroy (d : MusicDir) : Keeps Shrinks d.destroy :=
  Keeps.get.bind fun _ => shrinks_destroyFrom _ d

/-- With a directory the part below another one has its parent, if that is not the other one
itself. -/
theorem mem_subtree_parent {t : Table DirRow} {c : Int} {r : Int × DirRow} (hr : r ∈ t.rows)
    (h : r.1 ∈ subtree t c) (hne : r.1 ≠ c) : r.2.parentId ∈ subtree t c := by
  obtain ⟨y, ⟨row, hrow, hp⟩, hy⟩ := Relation.TransGen.head'_iff.mp (h.resolve_left hne)
  rw [Placed.row_unique hr hrow, hp]
  rcases Relation.reflTransGen_iff_eq_or_transGen.mp hy with hc | hb
  · exact .inl hc.symm
  · exact .inr hb

section

variable {disk : Disk} {roots : List Bytes} {p : Int} {v : Database × List Database} {s : Logged}

/-- Nothing that is shown lies below a directory that is not. -/
theorem Tidies.not_below (h : Tidies disk roots p v (tables s)) {c : Int} (hc : c ≠ 0)
    (hmet : ∀ r names, Shown disk v.1.musicDirs r names → r.1 ≠ c) {r : Int × DirRow}
    {names : List Bytes} (hr : Shown disk v.1.musicDirs r names) :
    r.1 ∉ subtree s.db.musicDirs c := by
  have hs := h.tended.sound
  have hzero : (0 : Int) ∉ subtree s.db.musicDirs c := by
    rintro (hz | hb)
    · exact hc hz.symm
    · obtain ⟨y, ⟨row, hrow, -⟩, -⟩ := Relation.TransGen.head'_iff.mp hb
      exact Int.lt_irrefl 0 (hs.dirs _ hrow)
  induction hr with
  | root hroot =>
    have hself : Shown disk _ _ _ := .root hroot
    exact fun hmem => hzero
      (mem_subtree_parent (h.spares.dirs _ _ hself).mem hmem (hmet _ _ hself))
  | child hrow hp hq hn hf hd ih =>
    have hself := Shown.child hrow hp hq hn hf hd
    refine fun hmem => ih ?_
    rw [← hp]
    exact mem_subtree_parent (h.spares.dirs _ _ hself).mem hmem (hmet _ _ hself)

/-- The part below what can be a child only lies under the same root. -/
theorem under_of_subtree (hs : Sound s.db) (hp : p ≠ 0) (hu : Under roots s.db.musicDirs p)
    {c x : Int} (hc : c ≠ 0) (hparent : ∀ row, (c, row) ∈ s.db.musicDirs.rows → row.parentId = p)
    (hx : x ∈ subtree s.db.musicDirs c) {row : DirRow} (hrow : (x, row) ∈ s.db.musicDirs.rows) :
    Under roots s.db.musicDirs x := by
  have hchild : ∀ row, (c, row) ∈ s.db.musicDirs.rows → Under roots s.db.musicDirs c :=
    fun row hr => hu.child hp ⟨row, hr, hparent row hr⟩
  rcases hx with rfl | hb
  · exact hchild row hrow
  · obtain ⟨y, -, hy⟩ := Relation.TransGen.tail'_iff.mp hb
    obtain ⟨crow, hcrow⟩ := hs.linked.dirs.parent hy hc
    exact (hchild crow hcrow).below hs.linked.dirs hc hb

/-- What can be a child only and is not shown is deleted with everything below it. -/
theorem Tidies.destroyDir (hv : Scanned roots p v) (h : Tidies disk roots p v (tables s))
    {c : MusicDir} (hc : c.dbId ≠ 0)
    (hparent : ∀ row, (c.dbId, row) ∈ s.db.musicDirs.rows → row.parentId = p)
    (hmet : ∀ r names, Shown disk v.1.musicDirs r names → r.1 ≠ c.dbId) :
    Tidies disk roots p v (tables (after c.destroy s)) := by
  have hs : Sound s.db := h.tended.sound
  have ht : Tended p (tables s) (tables (after c.destroy s)) := (destroy_tended hs hc hparent).1
  cases hstale : s.world.stale with
  | true =>
    rw [destroy_refused hstale]
    exact h
  | false =>
    obtain ⟨-, hgone⟩ := MusicDir.destroy_gone hstale hs.linked.dirs
      (fun r hr => (hs.songs r hr).ne') c
    have hdead : ∀ r names, Shown disk v.1.musicDirs r names →
        r.1 ∉ subtree s.db.musicDirs c.dbId := fun r names hr => h.not_below hc hmet hr
    refine h.next hv ht (fun r names hr => ?_) (fun r _ hfirst q hq => ?_) (fun r hr => ?_)
      (fun _ _ q hq _ _ => ((hgone.pruned.songs q).mp hq).1) (shrinks_destroy c s).passed
    · exact (hgone.pruned.dirs r).mpr ⟨(h.spares.dirs r names hr).mem, hdead r names hr⟩
    · exact hfirst q (hgone.pruned.dirs_subset q hq)
    · refine (hgone.pruned.songs r).mpr ⟨(h.spares.survives hr).mem, fun hmem => ?_⟩
      rcases hr with ⟨-, helse⟩ | hmet'
      · have helse' := h.spares.elsewhere _ helse
        obtain ⟨names, hpl, -⟩ := id helse'
        obtain ⟨row, hrow⟩ := hpl.mem
        exact (under_of_subtree hs hv.ne_zero (h.tended.under hv.sound hv.under) hc hparent hmem
          hrow).not_elsewhere helse'
      · obtain ⟨q, names, hq, hdir, -⟩ := hmet'.shown
        exact hdead q names hq (hdir ▸ hmem)

end

end Spinny

import Spinny.Enclosure

/-!
# `sync` of a disk that stays as it is

`sync` adds the rows that are missing below a directory and deletes those that the disk does not
have, on all levels down to its depth.

* `Reflects`: the rows below a directory are what the disk has at its path.
* `Halfway`: what the loop over the leaves has brought about so far; one lemma for each way a turn
  can go, and for each deletion after it.
* `syncFrom_reflects`: a `sync` that returns leaves what the disk has.
-/

namespace Spinny

open Bytes Sqlite Proc

variable [Affinity]

/-! ## What the disk has -/

/-- The disk does not change, and its names are stored as they are. -/
structure Disk.Still (disk : Disk) : Prop where
  status : ∀ n path, disk.status n path = disk.status 0 path
  leaves : ∀ n path, disk.leaves n path = disk.leaves 0 path
  distinct : ∀ path, (disk.leaves 0 path).1.Nodup
  stored : ∀ path, ∀ leaf ∈ (disk.leaves 0 path).1, coerce leaf = leaf

/-- The leaf is a directory. -/
def Disk.IsDir (disk : Disk) (path : List Bytes) (leaf : Bytes) : Prop :=
  disk.status 0 (path ++ [leaf]) = .directory

/-- The leaf is a file that `create_from_file` takes. -/
def Disk.IsSong (disk : Disk) (path : List Bytes) (leaf : Bytes) : Prop :=
  disk.status 0 (path ++ [leaf]) = .file ∧ Song.isInteresting leaf = true

/-- The rows `M` are one for each directory among the leaves. -/
abbrev DirsOf (disk : Disk) (path : List Bytes) (M : Int × DirRow → Prop) (leaves : List Bytes) :
    Prop :=
  Lists.Matches (fun r => r.2.name.val) M leaves (disk.IsDir path) (disk.IsDir path)

/-- The rows `M` are one for each song among the leaves. -/
abbrev SongsOf (disk : Disk) (path : List Bytes) (M : Int × SongRow → Prop) (leaves : List Bytes) :
    Prop :=
  Lists.Matches (fun r => r.2.fileName.val) M leaves (disk.IsSong path) (disk.IsSong path)

/-- Down to the depth the rows in the directory `x` and below it are what the disk has at the
path. -/
def Reflects (disk : Disk) : Nat → List Bytes → Database → Int → Prop
  | 0, _, _, _ => True
  | depth + 1, path, db, x =>
    DirsOf disk path (fun r => r ∈ db.musicDirs.rows ∧ r.2.parentId = x) (disk.leaves 0 path).1 ∧
      SongsOf disk path (fun r => r ∈ db.songs.rows ∧ r.2.dirId = x) (disk.leaves 0 path).1 ∧
        ∀ r ∈ db.musicDirs.rows, r.2.parentId = x →
          Reflects disk depth (path ++ [r.2.name.val]) db r.1

theorem Reflects.of_same {disk : Disk} {depth : Nat} {path : List Bytes} {db db' : Database}
    {x : Int} (h : Reflects disk depth path db x) (hsame : SameBelow x db db') :
    Reflects disk depth path db' x := by
  induction depth generalizing path x with
  | zero => trivial
  | succ depth ih =>
    obtain ⟨hdirs, hsongs, hbelow⟩ := h
    have hdir : ∀ r : Int × DirRow, r ∈ db'.musicDirs.rows ∧ r.2.parentId = x ↔
        r ∈ db.musicDirs.rows ∧ r.2.parentId = x :=
      fun r => and_congr_left fun hp => hsame.dirs r (.inl hp)
    have hsong : ∀ r : Int × SongRow, r ∈ db'.songs.rows ∧ r.2.dirId = x ↔
        r ∈ db.songs.rows ∧ r.2.dirId = x :=
      fun r => and_congr_left fun hp => hsame.songs r (.inl hp)
    refine ⟨hdirs.congr hdir, hsongs.congr hsong, fun r hr hp => ?_⟩
    have hold := ((hdir r).mp ⟨hr, hp⟩).1
    refine ih (hbelow r hold hp) ?_
    have hsub : ∀ y ∈ subtree db.musicDirs r.1, y ∈ subtree db.musicDirs x := by
      rintro y (rfl | hb)
      · exact .inr (.single ⟨r.2, hold, hp⟩)
      · exact .inr (hb.tail ⟨r.2, hold, hp⟩)
    exact ⟨fun q hq => hsame.dirs q (hsub _ hq), fun q hq => hsame.songs q (hsub _ hq)⟩

/-! ## Paths -/

/-- The object is the row. -/
def MusicDir.IsRow (d : MusicDir) (db : Database) : Prop :=
  ∃ row, (d.dbId, row) ∈ db.musicDirs.rows ∧ d = .ofRow d.dbId row

/-- Where `path` comes to an end, it is the path. -/
theorem path_placed {d : MusicDir} {s : Logged} (hn : Narrow s.db) (hd : d.IsRow s.db)
    {names l : List Bytes} (hpl : Placed s.db.musicDirs d.dbId names)
    (h : outcome d.path.scan s = .ok l) : l = names := by
  obtain ⟨row, hr, hself⟩ := hd
  have hwalk := ok_of_scan h
  cases hstale : s.world.stale with
  | false =>
    have hreturns := path_returns hstale hn hpl hr
    rw [← hself] at hreturns
    rw [hreturns.outcome] at hwalk
    exact (Except.ok.inj hwalk).symm
  | true =>
    have hparent : d.parentId = row.parentId := by
      rw [hself]
      exact parentId_ofRow hn hr
    rw [outcome_path] at hwalk
    unfold MusicDir.pathFrom at hwalk
    cases hpl with
    | root hr' =>
      obtain rfl := Placed.row_unique hr hr'
      rw [if_pos (by rw [MusicDir.isRoot, hparent, beq_self_eq_true]), hself] at hwalk
      exact (Except.ok.inj hwalk).symm
    | child hr' hne hp =>
      obtain rfl := Placed.row_unique hr hr'
      rw [if_neg (by rw [MusicDir.isRoot, hparent]; simpa using hne)] at hwalk
      -- a refused text in the buffer stops the query for the parent
      cases hfuel : s.world.db.musicDirs.rows.length with
      | zero =>
        rw [hfuel] at hwalk
        cases hwalk
      | succ fuel =>
        rw [hfuel] at hwalk
        obtain ⟨p, hload, -⟩ := bind_eq_ok.mp hwalk
        have hparent : outcome d.parent s.world = .ok p := ok_of_run hload
        rw [MusicDir.parent, MusicDir.load, loadRow, outcome_loadOne, if_pos (.inl hstale)] at hparent
        cases hparent

/-! ## The loop -/

/-- What `sync` makes of a directory; where the disk has nothing at its path, it turns back. -/
def ReflectsSync (disk : Disk) (depth : Nat) (sync : MusicDir → Scan Unit) : Prop :=
  ∀ d path s, Sound s.db → Narrow s.db → d.IsRow s.db → Placed s.db.musicDirs d.dbId path →
    outcome (sync d) s = .ok () → ¬ Wide (after (sync d) s) →
      Enclosed d.dbId (tables s) (tables (after (sync d) s)) ∧
        (disk.status 0 path ≠ .missing → Reflects disk depth path (after (sync d) s).db d.dbId)

/-- No directory of the list has the rowid. -/
def Unmet.OffDirs (left : Unmet) (x : Int) : Prop := ∀ c ∈ left.dirs, c.dbId ≠ x

/-- No song of the list has the rowid. -/
def Unmet.OffSongs (left : Unmet) (x : Int) : Prop := ∀ q ∈ left.songs, q.dbId ≠ x

/-- The loop over the leaves of the directory `p` has come behind those of `done`. -/
structure Halfway (disk : Disk) (depth : Nat) (p : Int) (path : List Bytes)
    (v : Database × List Database) (done : List Bytes) (left : Unmet) (s : Logged) : Prop where
  enclosed : Enclosed p v (tables s)
  narrow : Narrow s.db
  listed : left.Listed p s.db
  own : ∀ q ∈ left.songs, ∃ row, (q.dbId, row) ∈ s.db.songs.rows ∧ row.dirId = p ∧
    q.fileName = row.fileName.val
  dirIds : (left.dirs.map MusicDir.dbId).Nodup
  songIds : (left.songs.map Song.dbId).Nodup
  dirs : DirsOf disk path
    (fun r => (r ∈ s.db.musicDirs.rows ∧ r.2.parentId = p) ∧ left.OffDirs r.1) done
  songs : SongsOf disk path
    (fun r => (r ∈ s.db.songs.rows ∧ r.2.dirId = p) ∧ left.OffSongs r.1) done
  below : ∀ r ∈ s.db.musicDirs.rows, r.2.parentId = p → left.OffDirs r.1 →
    Reflects disk depth (path ++ [r.2.name.val]) s.db r.1

section

variable {disk : Disk} {depth : Nat} {p : Int} {path : List Bytes} {v : Database × List Database}
  {done : List Bytes} {left : Unmet} {leaf : Bytes} {s : Logged} {sync : MusicDir → Scan Unit}

/-- Two rows in one directory, of which neither lies below the other. -/
theorem sameBelow_sibling {c x : Int} {v v' : Database × List Database} (hv : Sound v.1)
    (h : Enclosed c v v') (hc : IsChild v.1.musicDirs c p) (hx : IsChild v.1.musicDirs x p)
    (hne : x ≠ c) : SameBelow x v.1 v'.1 := by
  have hrow : HasDir x v.1 := by
    obtain ⟨row, hr, -⟩ := hx
    exact ⟨row, hr⟩
  exact h.sameBelow hv hrow hne (hv.linked.dirs.not_below_sibling hc hx)
    (hv.linked.dirs.not_below_sibling hx hc)

theorem Halfway.placed (hv : Sound v.1) (h : Halfway disk depth p path v done left s)
    (hpl : Placed v.1.musicDirs p path) : Placed s.db.musicDirs p path :=
  h.enclosed.toTended.placed hpl (hv.linked.dirs.not_below_self p)

/-- `sync` of a child on the list, which is taken off. -/
theorem Halfway.child (hv : Sound v.1) (hsync : ReflectsSync disk depth sync)
    (h : Halfway disk depth p path v done left s) (hp : p ≠ 0)
    (hpl : Placed s.db.musicDirs p path) (hnew : leaf ∉ done) (hdir : disk.IsDir path leaf)
    {child : MusicDir} (hfind : left.dirs.find? (fun c => c.name == leaf) = some child)
    (ho : outcome (sync child) s = .ok ()) (hw : ¬ Wide (after (sync child) s))
    (hnarrow : Narrow (after (sync child) s).db) :
    Halfway disk depth p path v (done ++ [leaf])
      { left with dirs := left.dirs.eraseP fun c => c.name == leaf } (after (sync child) s) := by
  have hs : Sound s.db := h.enclosed.sound
  obtain ⟨row, hrow, hparent, hself⟩ := h.listed child (List.mem_of_find?_eq_some hfind)
  have hname : row.name.val = leaf := by
    have hsome := List.find?_some hfind
    rw [hself] at hsome
    exact beq_iff_eq.mp hsome
  have hchild : IsChild s.db.musicDirs child.dbId p := ⟨row, hrow, hparent⟩
  have hplaced : Placed s.db.musicDirs child.dbId (path ++ [leaf]) := by
    obtain ⟨parentId, name⟩ := row
    obtain rfl := hparent
    obtain rfl := hname
    exact .child hrow hp hpl
  obtain ⟨henclosed, hreflects⟩ := hsync child (path ++ [leaf]) s hs h.narrow ⟨row, hrow, hself⟩
    hplaced ho hw
  -- with its row the child is off the list
  have hoff : ∀ x, Unmet.OffDirs { left with dirs := left.dirs.eraseP fun c => c.name == leaf } x ↔
      left.OffDirs x ∨ x = child.dbId := Lists.forall_mem_eraseP h.dirIds hfind
  have hrows : ∀ r : Int × DirRow, r ∈ (after (sync child) s).db.musicDirs.rows ∧
      r.2.parentId = p ↔ r ∈ s.db.musicDirs.rows ∧ r.2.parentId = p :=
    henclosed.child_iff hs hchild
  have hsame : ∀ r : Int × DirRow, r ∈ s.db.musicDirs.rows → r.1 = child.dbId →
      r = (child.dbId, row) := by
    rintro ⟨x, row'⟩ hr rfl
    rw [Placed.row_unique hr hrow]
  exact {
    enclosed := h.enclosed.trans hv (henclosed.of_child hs hchild)
    narrow := hnarrow
    listed := fun c hc => by
      obtain ⟨row', hr', hp', hself'⟩ := h.listed c (List.mem_of_mem_eraseP hc)
      exact ⟨row', ((hrows _).mpr ⟨hr', hp'⟩).1, hp', hself'⟩
    own := fun q hq => by
      obtain ⟨row', hr', hp', hself'⟩ := h.own q hq
      exact ⟨row', ((henclosed.song_iff hs hchild _).mpr ⟨hr', hp'⟩).1, hp', hself'⟩
    dirIds := h.dirIds.sublist (List.eraseP_sublist.map _)
    songIds := h.songIds
    dirs := by
      have hmet := h.dirs.meet (a := (child.dbId, row)) (hname ▸ hnew) (hname ▸ hdir)
        fun r => Iff.rfl
      rw [hname] at hmet
      refine hmet.congr fun r => ?_
      rw [hrows r, hoff r.1]
      constructor
      · rintro ⟨hr, hoff | hid⟩
        · exact .inl ⟨hr, hoff⟩
        · exact .inr (hsame r hr.1 hid)
      · rintro (⟨hr, hoff⟩ | rfl)
        · exact ⟨hr, .inl hoff⟩
        · exact ⟨⟨hrow, hparent⟩, .inr rfl⟩
    songs := by
      refine (h.songs.congr fun r => and_congr_left fun _ => henclosed.song_iff hs hchild r).pass ?_
      rintro ⟨hfile, -⟩
      rw [show disk.status 0 (path ++ [leaf]) = .directory from hdir] at hfile
      cases hfile
    below := fun r hr hrp hroff => by
      have hold := ((hrows r).mp ⟨hr, hrp⟩).1
      rcases (hoff r.1).mp hroff with hroff | hid
      · have hne : r.1 ≠ child.dbId :=
          (hroff child (List.mem_of_find?_eq_some hfind)).symm
        exact (h.below r hold hrp hroff).of_same
          (sameBelow_sibling hs henclosed hchild ⟨r.2, hold, hrp⟩ hne)
      · obtain rfl := hsame r hold hid
        rw [hname]
        exact hreflects fun hmissing => FileStatus.noConfusion (hdir.symm.trans hmissing) }

/-- The directory that `save` gives its rowid. -/
theorem saveDir_value {d d' : MusicDir} (ho : outcome d.saveNew s = .ok d') :
    d' = { d with dbId := s.db.musicDirs.nextId } := by
  unfold MusicDir.saveNew at ho
  rw [outcome_bind_ok (outcome_get s), after_get] at ho
  obtain ⟨_, -, hret⟩ := bind_eq_ok.mp ho
  exact (Except.ok.inj hret).symm

/-- A new directory with the name of a leaf. -/
theorem Halfway.newChild (hv : Sound v.1) (h : Halfway disk depth p path v done left s)
    (hp : HasDir p s.db) {d child : MusicDir} (hid : d.dbId = p) (hstored : coerce leaf = leaf)
    (ho : outcome (d.addChild leaf).saveNew s = .ok child)
    (hnarrow : Narrow (after (d.addChild leaf).saveNew s).db) :
    Halfway disk depth p path v done { left with dirs := child :: left.dirs }
      (after (d.addChild leaf).saveNew s) ∧ child.name = leaf := by
  have hs : Sound s.db := h.enclosed.sound
  obtain ⟨row, hrow, hchild, ht⟩ := saveDir_ok ho
  have hparent : row.parentId = p := (parentId_toRow hrow).trans hid
  have hname : row.name.val = leaf := (congrArg Cell.print (name_toRow hrow)).trans hstored
  have hdb : (after (d.addChild leaf).saveNew s).db = s.db.mapDirs fun t => t.insert row :=
    congrArg Prod.fst ht
  have hmem : ∀ r, r ∈ (after (d.addChild leaf).saveNew s).db.musicDirs.rows ↔
      r ∈ s.db.musicDirs.rows ∨ r = (child.dbId, row) := by
    intro r
    rw [hdb, hchild]
    exact Table.mem_rows_insert
  have hself : child = .ofRow child.dbId row := by
    have hnew := parentId_ofRow hnarrow ((hmem _).mpr (.inr rfl))
    rw [saveDir_value ho] at hnew ⊢
    simp only [MusicDir.ofRow, MusicDir.addChild] at hnew ⊢
    rw [hnew, hparent, hname, hid]
  have hold : ∀ r ∈ s.db.musicDirs.rows, r.1 ≠ child.dbId := by
    intro r hr
    rw [hchild]
    exact (s.db.musicDirs.lt_nextId r hr).ne
  have hparentRow : (d.addChild leaf).parentId = 0 ∨ HasDir (d.addChild leaf).parentId s.db :=
    .inr (show HasDir d.dbId s.db from hid ▸ hp)
  have henclosed : Enclosed p (tables s) (tables (after (d.addChild leaf).saveNew s)) := {
    toTended := (saveDir_tended hs hparentRow).1
    newDirs := fun r hr => by
      rcases (hmem r).mp hr with hr | rfl
      · exact .inl hr
      · exact .inr (.single ⟨row, hr, hparent⟩)
    songs := fun r hr _ => by
      rw [ht]
      exact hr
    newSongs := fun r hr => by
      rw [ht] at hr
      exact .inl hr }
  refine ⟨{
    enclosed := h.enclosed.trans hv henclosed
    narrow := hnarrow
    listed := fun c hc => ?_
    own := ?_
    dirIds := ?_
    songIds := h.songIds
    dirs := ?_
    songs := ?_
    below := ?_ }, ?_⟩
  · rcases List.mem_cons.mp hc with rfl | hc
    · exact ⟨row, (hmem _).mpr (.inr rfl), hparent, hself⟩
    · obtain ⟨row', hr', hp', hself'⟩ := h.listed c hc
      exact ⟨row', (hmem _).mpr (.inl hr'), hp', hself'⟩
  · rw [hdb]
    exact h.own
  · refine List.nodup_cons.mpr ⟨fun hin => ?_, h.dirIds⟩
    obtain ⟨c, hc, hceq⟩ := List.mem_map.mp hin
    obtain ⟨row', hr', -⟩ := h.listed c hc
    exact hold _ hr' hceq
  · refine h.dirs.congr fun r => ?_
    rw [hmem]
    constructor
    · rintro ⟨⟨hr | rfl, hrp⟩, hoff⟩
      · exact ⟨⟨hr, hrp⟩, fun c hc => hoff c (List.mem_cons_of_mem _ hc)⟩
      · exact absurd rfl (hoff child List.mem_cons_self)
    · rintro ⟨⟨hr, hrp⟩, hoff⟩
      exact ⟨⟨.inl hr, hrp⟩, List.forall_mem_cons.mpr ⟨(hold r hr).symm, hoff⟩⟩
  · rw [hdb]
    exact h.songs
  · intro r hr hrp hoff
    rcases (hmem r).mp hr with hr | rfl
    · refine (h.below r hr hrp fun c hc => hoff c (List.mem_cons_of_mem _ hc)).of_same ⟨?_, ?_⟩
      · intro q hq
        rw [hmem]
        refine ⟨fun hmem' => hmem'.resolve_right ?_, .inl⟩
        -- the new row lies in the parent, which does not lie below its child
        rintro rfl
        change row.parentId ∈ subtree s.db.musicDirs r.1 at hq
        rw [hparent] at hq
        exact hs.linked.dirs.parent_not_mem ⟨r.2, hr, hrp⟩ hq
      · intro q _
        rw [hdb]
        rfl
    · exact absurd rfl (hoff child List.mem_cons_self)
  · rw [hself]
    exact hname

theorem visitDir_halfway (hv : Sound v.1) (hsync : ReflectsSync disk depth sync)
    (hwatch : ∀ d, Keeps Watched (sync d)) (h : Halfway disk depth p path v done left s)
    {d : MusicDir} (hid : d.dbId = p) (hpl : Placed v.1.musicDirs p path) (hnew : leaf ∉ done)
    (hstored : coerce leaf = leaf) (hdir : disk.IsDir path leaf) {left' : Unmet}
    (ho : outcome (d.visitDir sync left leaf) s = .ok left')
    (hw : ¬ Wide (after (d.visitDir sync left leaf) s)) :
    Halfway disk depth p path v (done ++ [leaf]) left' (after (d.visitDir sync left leaf) s) := by
  have hs : Sound s.db := h.enclosed.sound
  have hpls := h.placed hv hpl
  obtain ⟨prow, hprow⟩ := hpls.mem
  have hp : p ≠ 0 := (hs.dirs _ hprow).ne'
  unfold MusicDir.visitDir at ho hw ⊢
  cases hfind : left.dirs.find? fun c => c.name == leaf with
  | some child =>
    simp only [hfind] at ho hw ⊢
    obtain ⟨_, hsynced, hw₁, hret, hafter⟩ := bind_narrow (fun _ => Keeps.pure _) ho hw
    obtain rfl := Except.ok.inj hret
    rw [hafter]
    have hnarrow := ((hwatch child s).narrow h.narrow).resolve_left hw₁
    exact h.child hv hsync hp hpls hnew hdir hfind hsynced hw₁ hnarrow
  | none =>
    simp only [hfind] at ho hw ⊢
    obtain ⟨child, hsaved, hw₁, ho₂, hafter⟩ :=
      bind_narrow (fun c => (hwatch c).bind fun _ => Keeps.pure _) ho hw
    rw [hafter] at hw ⊢
    have hnarrow := ((watched_scans.saveDir _ s).narrow h.narrow).resolve_left hw₁
    obtain ⟨hhalf, hname⟩ := h.newChild hv ⟨prow, hprow⟩ hid hstored hsaved hnarrow
    obtain ⟨_, hsynced, hw₂, hret, hafter₂⟩ := bind_narrow (fun _ => Keeps.pure _) ho₂ hw
    obtain rfl := Except.ok.inj hret
    rw [hafter₂]
    have hnarrow₂ := ((hwatch child _).narrow hnarrow).resolve_left hw₂
    have hnext := hhalf.child hv hsync hp (hhalf.placed hv hpl) hnew hdir
      (List.find?_cons_of_pos (by simpa using hname)) hsynced hw₂ hnarrow₂
    rwa [List.eraseP_cons_of_pos (by simpa using hname)] at hnext

/-! ## Files -/

/-- Code of the world and readings raise no `file_error`. -/
theorem quiet_triple {α : Type} {x : Scan α} (hx : Quiet x) {v : Database × List Database}
    (hraise : ∀ s, outcome x s ≠ .error .fileError) :
    Triple (fun s => tables s = v) x (fun _ s => tables s = v)
      fun e s => tables s = v ∧ e ≠ .fileError := by
  refine Triple.intro (fun s _ hs _ => (hx s).trans hs) fun s e hs he => ⟨(hx s).trans hs, ?_⟩
  rintro rfl
  exact hraise s he

theorem scan_not_fileError {α : Type} (x : Run α) (s : Logged) :
    outcome x.scan s ≠ .error .fileError := by
  rw [Run.scan, outcome_focus]
  cases outcome x s.world with
  | ok a => exact fun h => by cases h
  | error e => exact fun h => by cases h

theorem existsAt_triple (hstill : disk.Still) (file : List Bytes)
    {v : Database × List Database} :
    Triple (fun s => tables s = v) (disk.existsAt file)
      (fun found s => tables s = v ∧ (found = true ↔ disk.status 0 file ≠ .missing))
      fun e s => tables s = v ∧ e ≠ .fileError := by
  refine Triple.bind (Q := fun _ s => tables s = v) ?_ fun n => ?_
  · exact (quiet_triple quiet_reading fun s h => by cases h).conseq (fun _ h => h)
      (fun _ _ h => h) fun _ _ h => h
  · rw [hstill.status n file]
    exact fun s hs => ⟨hs, decide_eq_true_iff⟩

theorem readTag_not_fileError (file : List Bytes) (s : Logged) :
    outcome (disk.readTag file) s ≠ .error .fileError := by
  rw [Disk.readTag, outcome_bind_ok (reading_returns s).outcome]
  cases disk.tag s.world.readings file with
  | some tag => exact fun h => by cases h
  | none => exact fun h => by cases h

theorem change_not_fileError (accepted : Bool) (f : Database → Database) (s : Logged) :
    outcome (change accepted f) s ≠ .error .fileError := by
  intro h
  unfold change at h
  cases ho : outcome (execUpdate accepted f).run.scan s with
  | ok u =>
    rw [outcome_bind_ok ho] at h
    cases h
  | error e =>
    rw [outcome_bind_error ho] at h
    exact scan_not_fileError _ s (ho.trans h)

theorem saveSong_triple (song : Song) {v : Database × List Database} :
    Triple (fun s => tables s = v) song.saveNew
      (fun _ s => ∃ row : SongRow, row.dirId = song.dirId ∧
        row.fileName.val = coerce song.fileName ∧
          tables s = (v.1.mapSongs fun t => t.insert row, v.1.mapSongs (fun t => t.insert row) :: v.2))
      fun e s => tables s = v ∧ e ≠ .fileError := by
  rintro s rfl
  unfold Song.saveNew
  rw [outcome_bind_ok (outcome_get s), after_bind_ok (outcome_get s), after_get]
  rcases change_tables song.toRow.isSome _ s with ⟨ho, hacc, ht⟩ | ⟨⟨e, ho⟩, ht⟩
  · obtain ⟨row, hrow⟩ := Option.isSome_iff_exists.mp hacc
    have hfields : row.dirId = song.dirId ∧ row.fileName.val = coerce song.fileName := by
      unfold Song.toRow at hrow
      split at hrow
      · rw [← Option.some.inj hrow]
        exact ⟨rfl, rfl⟩
      · cases hrow
    rw [outcome_bind_ok ho, after_bind_ok ho]
    refine ⟨row, hfields.1, hfields.2, ?_⟩
    rw [after_pure, ht, hrow]
    rfl
  · rw [outcome_bind_error ho, after_bind_error ho]
    exact ⟨ht, fun he => change_not_fileError _ _ s (he ▸ ho)⟩

/-- What `create_from_file` comes to with a leaf of a directory whose path is known. -/
theorem createFromFile_triple (hstill : disk.Still) {d : MusicDir} (hs : Sound s.db)
    (hn : Narrow s.db) (hd : d.IsRow s.db) (hpl : Placed s.db.musicDirs d.dbId path)
    (hfile : disk.status 0 (path ++ [leaf]) = .file) :
    Triple (· = s) (Song.createFromFile disk d leaf)
      (fun _ s' => disk.IsSong path leaf ∧ ∃ row : SongRow, row.dirId = d.dbId ∧
        row.fileName.val = coerce leaf ∧
          tables s' = changedTo (s.db.mapSongs fun t => t.insert row) s)
      fun e s' => tables s' = tables s ∧ (e = .fileError → ¬ disk.IsSong path leaf) := by
  have hrow : HasDir d.dbId s.db := by
    obtain ⟨row, hr, -⟩ := hd
    exact ⟨row, hr⟩
  unfold Song.createFromFile
  rw [saveIfNeeded_saved hs hrow, pure_bind]
  have hother : ∀ (e : Stop) s', tables s' = tables s ∧ e ≠ .fileError →
      tables s' = tables s ∧ (e = .fileError → ¬ disk.IsSong path leaf) :=
    fun e s' h => ⟨h.1, fun he => absurd he h.2⟩
  refine Triple.bind (Q := fun names s' => tables s' = tables s ∧ names = path) ?_ fun names => ?_
  · refine Triple.intro ?_ ?_
    · rintro _ names rfl ho
      exact ⟨Queries.scan (.path d) _, path_placed hn hd hpl ho⟩
    · rintro _ e rfl ho
      exact hother e _ ⟨Queries.scan (.path d) _, fun he => scan_not_fileError _ _ (he ▸ ho)⟩
  · refine Triple.of_single fun s₁ ⟨h₁, hnames⟩ => ?_
    rw [hnames]
    refine Triple.bind (Q := fun found s' => tables s' = tables s ∧
      (found = true ↔ disk.status 0 (path ++ [leaf]) ≠ .missing)) ?_ fun found => ?_
    · exact (existsAt_triple hstill _).conseq (fun _ h => h ▸ h₁) (fun _ _ h => h) hother
    · refine Triple.of_single fun s₂ ⟨h₂, hstatus⟩ => ?_
      split
      · rename_i hc
        rintro _ rfl
        refine ⟨h₂, fun _ hsong => ?_⟩
        have hfound : found = true := hstatus.mpr (by rw [hfile]; decide)
        rw [hfound, hsong.2] at hc
        cases hc
      · rename_i hc
        obtain ⟨-, hname⟩ : found = true ∧ Song.isInteresting leaf = true := by simpa using hc
        have hsong : disk.IsSong path leaf := ⟨hfile, hname⟩
        have hfind : ∀ {α : Type} (n : Names α) name, Triple (fun s' => tables s' = tables s)
            (n.findOrCreate name).run.scan (fun _ s' => tables s' = tables s)
            fun e s' => tables s' = tables s ∧ (e = .fileError → ¬ disk.IsSong path leaf) :=
          fun n name => (quiet_triple (Queries.scan (.run (.findOrCreate n name)))
            (scan_not_fileError _)).conseq (fun _ h => h) (fun _ _ h => h) hother
        refine Triple.bind (Q := fun _ s' => tables s' = tables s) ?_ fun tag => ?_
        · exact (quiet_triple (keeps_readTag quiet_reading disk _) (readTag_not_fileError _)).conseq
            (fun _ h => h ▸ h₂) (fun _ _ h => h) hother
        · refine (hfind artistNames _).bind fun artist => (hfind albumNames _).bind fun album => ?_
          exact (saveSong_triple _).conseq (fun _ h => h) (fun _ _ h => ⟨hsong, h⟩) hother

theorem Halfway.same (h : Halfway disk depth p path v done left s) {s' : Logged}
    (ht : tables s' = tables s) : Halfway disk depth p path v done left s' := by
  have hdb : s'.db = s.db := congrArg Prod.fst ht
  constructor
  · rw [ht]
    exact h.enclosed
  · rw [hdb]
    exact h.narrow
  · rw [hdb]
    exact h.listed
  · rw [hdb]
    exact h.own
  · exact h.dirIds
  · exact h.songIds
  · rw [hdb]
    exact h.dirs
  · rw [hdb]
    exact h.songs
  · rw [hdb]
    exact h.below

omit [Affinity] in
theorem not_isDir (hfile : disk.status 0 (path ++ [leaf]) = .file) : ¬ disk.IsDir path leaf := by
  intro hdir
  rw [Disk.IsDir, hfile] at hdir
  cases hdir

/-- A song on the list is met. -/
theorem Halfway.meetSong (h : Halfway disk depth p path v done left s) (hnew : leaf ∉ done)
    (hfile : disk.status 0 (path ++ [leaf]) = .file) (hname : Song.isInteresting leaf = true) {song : Song}
    (hfind : left.songs.find? (fun q => q.fileName == leaf) = some song) :
    Halfway disk depth p path v (done ++ [leaf])
      { left with songs := left.songs.eraseP fun q => q.fileName == leaf } s := by
  obtain ⟨row, hrow, hdir, hself⟩ := h.own song (List.mem_of_find?_eq_some hfind)
  have hleaf : row.fileName.val = leaf := by
    have hsome := List.find?_some hfind
    rw [hself] at hsome
    exact beq_iff_eq.mp hsome
  have hoff : ∀ x, Unmet.OffSongs
      { left with songs := left.songs.eraseP fun q => q.fileName == leaf } x ↔
        left.OffSongs x ∨ x = song.dbId := Lists.forall_mem_eraseP h.songIds hfind
  exact {
    enclosed := h.enclosed
    narrow := h.narrow
    listed := h.listed
    own := fun q hq => h.own q (List.mem_of_mem_eraseP hq)
    dirIds := h.dirIds
    songIds := h.songIds.sublist (List.eraseP_sublist.map _)
    dirs := h.dirs.pass (not_isDir hfile)
    songs := by
      have hlike : disk.IsSong path leaf := ⟨hfile, hname⟩
      have hmet := h.songs.meet (a := (song.dbId, row)) (hleaf ▸ hnew) (hleaf ▸ hlike)
        fun r => Iff.rfl
      rw [hleaf] at hmet
      refine hmet.congr fun r => ?_
      rw [hoff r.1]
      constructor
      · rintro ⟨hr, hoff | hid⟩
        · exact .inl ⟨hr, hoff⟩
        · have hlookup := Table.lookup_eq_some.mpr hr.1
          rw [hid, Table.lookup_eq_some.mpr hrow] at hlookup
          exact .inr (Prod.ext hid (Option.some.inj hlookup).symm)
      · rintro (⟨hr, hoff⟩ | rfl)
        · exact ⟨hr, .inl hoff⟩
        · exact ⟨⟨hrow, hdir⟩, .inr rfl⟩
    below := h.below }

/-- A new song. -/
theorem Halfway.newSong (hv : Sound v.1) (h : Halfway disk depth p path v done left s)
    (hp : HasDir p s.db) (hnew : leaf ∉ done) (hfile : disk.status 0 (path ++ [leaf]) = .file)
    (hname : Song.isInteresting leaf = true) {row : SongRow} (hdir : row.dirId = p)
    (hleaf : row.fileName.val = leaf) {s' : Logged}
    (ht : tables s' = changedTo (s.db.mapSongs fun t => t.insert row) s) :
    Halfway disk depth p path v (done ++ [leaf]) left s' := by
  have hs : Sound s.db := h.enclosed.sound
  have hdb : s'.db = s.db.mapSongs fun t => t.insert row := congrArg Prod.fst ht
  have hmem : ∀ r, r ∈ s'.db.songs.rows ↔ r ∈ s.db.songs.rows ∨ r = (s.db.songs.nextId, row) := by
    intro r
    rw [hdb]
    exact Table.mem_rows_insert
  have henclosed : Enclosed p (tables s) (tables s') := {
    toTended := by
      rw [ht]
      exact .changed (hs.insertSong (hdir.symm ▸ hp)) fun _ hr => hr
    newDirs := fun r hr => by
      rw [ht] at hr
      exact .inl hr
    songs := fun r hr _ => (hmem r).mpr (.inl hr)
    newSongs := fun r hr => by
      rcases (hmem r).mp hr with hr | rfl
      · exact .inl hr
      · exact .inr (.inl hdir) }
  exact {
    enclosed := h.enclosed.trans hv henclosed
    narrow := by
      rw [hdb]
      exact h.narrow
    listed := by
      rw [hdb]
      exact h.listed
    own := fun q hq => by
      obtain ⟨row', hr', hq'⟩ := h.own q hq
      exact ⟨row', (hmem _).mpr (.inl hr'), hq'⟩
    dirIds := h.dirIds
    songIds := h.songIds
    dirs := by
      rw [hdb]
      exact h.dirs.pass (not_isDir hfile)
    songs := by
      have hlike : disk.IsSong path leaf := ⟨hfile, hname⟩
      have hmet := h.songs.meet (a := (s.db.songs.nextId, row)) (hleaf ▸ hnew) (hleaf ▸ hlike)
        fun r => Iff.rfl
      rw [hleaf] at hmet
      refine hmet.congr fun r => ?_
      rw [hmem]
      constructor
      · rintro ⟨⟨hr | rfl, hrp⟩, hoff⟩
        · exact .inl ⟨⟨hr, hrp⟩, hoff⟩
        · exact .inr rfl
      · rintro (⟨⟨hr, hrp⟩, hoff⟩ | rfl)
        · exact ⟨⟨.inl hr, hrp⟩, hoff⟩
        · refine ⟨⟨.inr rfl, hdir⟩, fun q hq => ?_⟩
          obtain ⟨row', hr', -⟩ := h.own q hq
          exact (s.db.songs.lt_nextId _ hr').ne
    below := fun r hr hrp hoff => by
      rw [hdb] at hr
      refine (h.below r hr hrp hoff).of_same ⟨fun q _ => by rw [hdb]; rfl, fun q hq => ?_⟩
      rw [hmem]
      refine ⟨fun hmem' => hmem'.resolve_right ?_, .inl⟩
      -- the new song lies in the parent, which does not lie below its child
      rintro rfl
      change row.dirId ∈ subtree s.db.musicDirs r.1 at hq
      rw [hdir] at hq
      exact hs.linked.dirs.parent_not_mem ⟨r.2, hr, hrp⟩ hq }

/-- An exception that is not passed on is a `file_error`. -/
theorem passed_fileError {x : Scan Unit} {u : Unit} {e : Stop}
    (h : outcome (tryCatch x passFileErrors) s = .ok u) (hx : outcome x s = .error e) :
    e = .fileError := by
  rw [outcome_tryCatch, hx] at h
  cases e with
  | fileError => rfl
  | raise r => cases h
  | filesystemError => cases h
  | nullTag => cases h

/-- A leaf that is a file. -/
theorem visitFile_halfway (hv : Sound v.1) (hstill : disk.Still)
    (h : Halfway disk depth p path v done left s) {d : MusicDir} (hid : d.dbId = p)
    (hd : d.IsRow s.db) (hpl : Placed v.1.musicDirs p path) (hnew : leaf ∉ done)
    (hstored : coerce leaf = leaf) (hfile : disk.status 0 (path ++ [leaf]) = .file) {left' : Unmet}
    (ho : outcome (d.visitFile (Song.createFromFile disk) left leaf) s = .ok left') :
    Halfway disk depth p path v (done ++ [leaf]) left'
      (after (d.visitFile (Song.createFromFile disk) left leaf) s) := by
  have hs : Sound s.db := h.enclosed.sound
  have hp : HasDir p s.db := (h.placed hv hpl).mem
  -- a leaf that needs no row
  have hpass : ¬ disk.IsSong path leaf →
      Halfway disk depth p path v (done ++ [leaf]) left s := fun hsong =>
    { h with dirs := h.dirs.pass (not_isDir hfile), songs := h.songs.pass hsong }
  unfold MusicDir.visitFile at ho ⊢
  by_cases hname : Song.isInteresting leaf = true
  · simp only [if_pos hname] at ho ⊢
    by_cases hany : (left.songs.any fun q => q.fileName == leaf) = true
    · simp only [if_pos hany] at ho ⊢
      obtain rfl := Except.ok.inj ho
      cases hfind : left.songs.find? fun q => q.fileName == leaf with
      | some song => exact h.meetSong hnew hfile hname hfind
      | none =>
        obtain ⟨q, hq, hleaf⟩ := List.any_eq_true.mp hany
        exact absurd hleaf (List.find?_eq_none.mp hfind q hq)
    · simp only [if_neg hany] at ho ⊢
      obtain ⟨_, htry, hret⟩ := bind_eq_ok.mp ho
      obtain rfl := Except.ok.inj hret
      rw [after_bind_ok htry, after_pure]
      have ht : tables (after (tryCatch (do let _ ← Song.createFromFile disk d leaf) passFileErrors) s) =
        _ := tables_recorded (Song.createFromFile disk) d leaf s
      have hcreate := createFromFile_triple hstill hs h.narrow hd
        (hid.symm ▸ h.placed hv hpl) hfile s rfl
      refine Halfway.same ?_ ht
      cases hmade : outcome (Song.createFromFile disk d leaf) s with
      | ok song =>
        rw [hmade] at hcreate
        obtain ⟨-, row, hdir, hleaf, hrow⟩ := hcreate
        exact h.newSong hv hp hnew hfile hname (hdir.trans hid) (hleaf.trans hstored) hrow
      | error e =>
        rw [hmade] at hcreate
        obtain ⟨hrefused, hsong⟩ := hcreate
        exact (hpass (hsong (passed_fileError htry (outcome_bind_error hmade _)))).same hrefused
  · simp only [if_neg hname] at ho ⊢
    obtain rfl := Except.ok.inj ho
    exact hpass fun hsong => hname hsong.2

theorem MusicDir.IsRow.kept (hv : Sound v.1) {d : MusicDir} (hd : d.IsRow v.1)
    (h : Enclosed d.dbId v (tables s)) : d.IsRow s.db := by
  obtain ⟨row, hrow, hself⟩ := hd
  exact ⟨row, h.spared _ hrow (hv.linked.dirs.not_below_self d.dbId), hself⟩

/-- One turn of the loop. -/
theorem visit_halfway (hv : Sound v.1) (hstill : disk.Still)
    (hsync : ReflectsSync disk depth sync) (hwatch : ∀ d, Keeps Watched (sync d)) {d : MusicDir}
    (hd : d.IsRow v.1) (hpl : Placed v.1.musicDirs d.dbId path)
    (h : Halfway disk depth d.dbId path v done left s) (hnew : leaf ∉ done)
    (hstored : coerce leaf = leaf) {left' : Unmet}
    (ho : outcome (d.visit disk (Song.createFromFile disk) sync path left leaf) s = .ok left')
    (hw : ¬ Wide (after (d.visit disk (Song.createFromFile disk) sync path left leaf) s)) :
    Halfway disk depth d.dbId path v (done ++ [leaf]) left'
      (after (d.visit disk (Song.createFromFile disk) sync path left leaf) s) := by
  unfold MusicDir.visit at ho hw ⊢
  obtain ⟨isDir, hisDir, hvisit⟩ := bind_eq_ok.mp ho
  rw [after_bind_ok hisDir] at hw ⊢
  obtain ⟨n, hstatus⟩ := isDirectory_ok hisDir
  rw [hstill.status n] at hstatus
  have hs := h.same (keeps_isDirectory quiet_reading disk (path ++ [leaf]) s)
  cases isDir with
  | true => exact visitDir_halfway hv hsync hwatch hs rfl hpl hnew hstored hstatus hvisit hw
  | false =>
    exact visitFile_halfway hv hstill hs rfl (hd.kept hv hs.enclosed) hpl hnew hstored hstatus hvisit

/-- The loop over the leaves. -/
theorem visits_halfway (hv : Sound v.1) (hstill : disk.Still)
    (hsync : ReflectsSync disk depth sync) (hwatch : ∀ d, Keeps Watched (sync d)) {d : MusicDir}
    (hd : d.IsRow v.1) (hpl : Placed v.1.musicDirs d.dbId path) (rest : List Bytes)
    (h : Halfway disk depth d.dbId path v done left s) (hdistinct : (done ++ rest).Nodup)
    (hstored : ∀ leaf ∈ rest, coerce leaf = leaf) {left' : Unmet}
    (ho : outcome (rest.foldlM (d.visit disk (Song.createFromFile disk) sync path) left) s =
      .ok left')
    (hw : ¬ Wide (after (rest.foldlM (d.visit disk (Song.createFromFile disk) sync path) left) s)) :
    Halfway disk depth d.dbId path v (done ++ rest) left'
      (after (rest.foldlM (d.visit disk (Song.createFromFile disk) sync path) left) s) := by
  have hkeeps : ∀ left leaf, Keeps Watched
      (d.visit disk (Song.createFromFile disk) sync path left leaf) :=
    watched_scans.visit hwatch d path
  induction rest generalizing done left s with
  | nil =>
    obtain rfl := Except.ok.inj ho
    rw [List.append_nil]
    exact h
  | cons leaf rest ih =>
    obtain ⟨hleaf, hstored⟩ := List.forall_mem_cons.mp hstored
    rw [List.foldlM_cons] at ho hw ⊢
    obtain ⟨next, hnext, hw₁, hrest, hafter⟩ :=
      bind_narrow (fun left => Keeps.foldlM rest hkeeps left) ho hw
    rw [hafter] at hw ⊢
    have hnew : leaf ∉ done := fun hin =>
      (List.nodup_append.mp hdistinct).2.2 leaf hin leaf List.mem_cons_self rfl
    have hturn := visit_halfway hv hstill hsync hwatch hd hpl h hnew hleaf hnext hw₁
    rw [List.append_cons] at hdistinct ⊢
    exact ih hturn hdistinct hstored hrest hw

/-! ## What was not met -/

/-- A directory that was not met is deleted. -/
theorem Halfway.destroyDir (hv : Sound v.1) {c : MusicDir} {dirs : List MusicDir}
    {songs : List Song} (h : Halfway disk depth p path v done ⟨c :: dirs, songs⟩ s)
    (ho : outcome c.destroy s = .ok ()) (hw : ¬ Wide (after c.destroy s)) :
    Halfway disk depth p path v done ⟨dirs, songs⟩ (after c.destroy s) := by
  have hs : Sound s.db := h.enclosed.sound
  obtain ⟨hrow, hlisted⟩ := List.forall_mem_cons.mp h.listed
  obtain ⟨row, hrow, hparent, -⟩ := hrow
  have hc : IsChild s.db.musicDirs c.dbId p := ⟨row, hrow, hparent⟩
  have hstale : s.world.stale = false := by
    cases hstale : s.world.stale with
    | false => rfl
    | true => exact absurd ho (MusicDir.destroy_stale hstale)
  obtain ⟨-, hgone⟩ := MusicDir.destroy_gone hstale hs.linked.dirs (fun r hr => (hs.songs r hr).ne') c
  have hdirs := hgone.pruned.dirs
  have hsongs := hgone.pruned.songs
  have htended := destroy_tended (p := p) hs (hs.dirs _ hrow).ne' fun row' hr' =>
    Placed.row_unique hrow hr' ▸ hparent
  -- what lies in the parent does not lie below the child
  have hself : p ∉ subtree s.db.musicDirs c.dbId := hs.linked.dirs.parent_not_mem hc
  have hsibling : ∀ x, IsChild s.db.musicDirs x p → x ≠ c.dbId →
      x ∉ subtree s.db.musicDirs c.dbId := by
    rintro x hx hne (heq | hb)
    · exact hne heq
    · exact hs.linked.dirs.not_below_sibling hc hx hb
  have hids := List.nodup_cons.mp h.dirIds
  have hother : ∀ c' ∈ dirs, c'.dbId ≠ c.dbId := fun c' hc' heq =>
    hids.1 (heq ▸ List.mem_map_of_mem hc')
  exact {
    enclosed := h.enclosed.trans hv {
      toTended := htended.1
      newDirs := fun r hr => .inl ((hdirs r).mp hr).1
      songs := fun r hr hout => (hsongs r).mpr ⟨hr, fun hin => hout (.inr (Below.of_child hc hin))⟩
      newSongs := fun r hr => .inl ((hsongs r).mp hr).1 }
    narrow := ((watched_scans.destroy c s).narrow h.narrow).resolve_left hw
    listed := fun c' hc' => by
      obtain ⟨row', hr', hp', hself'⟩ := hlisted c' hc'
      exact ⟨row', (hdirs _).mpr ⟨hr', hsibling _ ⟨row', hr', hp'⟩ (hother c' hc')⟩, hp', hself'⟩
    own := fun q hq => by
      obtain ⟨row', hr', hp', hself'⟩ := h.own q hq
      exact ⟨row', (hsongs _).mpr ⟨hr', hp'.symm ▸ hself⟩, hp', hself'⟩
    dirIds := hids.2
    songIds := h.songIds
    dirs := h.dirs.congr fun r => by
      rw [hdirs r]
      constructor
      · rintro ⟨⟨⟨hr, hout⟩, hrp⟩, hoff⟩
        refine ⟨⟨hr, hrp⟩, List.forall_mem_cons.mpr ⟨?_, hoff⟩⟩
        exact fun heq => hout (.inl heq.symm)
      · rintro ⟨⟨hr, hrp⟩, hoff⟩
        obtain ⟨hne, hoff⟩ := List.forall_mem_cons.mp hoff
        exact ⟨⟨⟨hr, hsibling _ ⟨r.2, hr, hrp⟩ hne.symm⟩, hrp⟩, hoff⟩
    songs := h.songs.congr fun r => by
      rw [hsongs r]
      constructor
      · rintro ⟨⟨⟨hr, -⟩, hrp⟩, hoff⟩
        exact ⟨⟨hr, hrp⟩, hoff⟩
      · rintro ⟨⟨hr, hrp⟩, hoff⟩
        exact ⟨⟨⟨hr, hrp.symm ▸ hself⟩, hrp⟩, hoff⟩
    below := fun r hr hrp hoff => by
      obtain ⟨hr, hout⟩ := (hdirs r).mp hr
      have hne : r.1 ≠ c.dbId := fun heq => hout (.inl heq)
      have hchild : IsChild s.db.musicDirs r.1 p := ⟨r.2, hr, hrp⟩
      have hapart : ∀ y ∈ subtree s.db.musicDirs r.1, y ∉ subtree s.db.musicDirs c.dbId :=
        fun y hy => subtree_disjoint hne (hs.linked.dirs.not_below_sibling hc hchild)
          (hs.linked.dirs.not_below_sibling hchild hc) hy
      refine (h.below r hr hrp (List.forall_mem_cons.mpr ⟨hne.symm, hoff⟩)).of_same
        ⟨fun q hq => ?_, fun q hq => ?_⟩
      · rw [hdirs q]
        exact and_iff_left_of_imp fun hmem => hapart _ (.inr (Below.child ⟨q.2, hmem, rfl⟩ hq))
      · rw [hsongs q]
        exact and_iff_left (hapart _ hq) }

theorem destroySong_ok {song : Song} (hid : song.dbId ≠ 0)
    (ho : outcome song.destroy s = .ok ()) : tables (after song.destroy s) =
      changedTo (s.db.mapSongs fun t => t.deleteWhere fun id _ => id == song.dbId) s := by
  unfold Song.destroy at ho ⊢
  rw [if_pos hid] at ho ⊢
  obtain ⟨_, hchange, -⟩ := bind_eq_ok.mp ho
  rw [after_bind_ok hchange]
  rcases change_tables true (.mapSongs fun t => t.deleteWhere fun id _ => id == song.dbId) s with
    ⟨-, -, ht⟩ | ⟨⟨e, he⟩, -⟩
  · exact ht
  · rw [he] at hchange
    cases hchange

/-- A song that was not met is deleted. -/
theorem Halfway.destroySong (hv : Sound v.1) {song : Song} {dirs : List MusicDir}
    {songs : List Song} (h : Halfway disk depth p path v done ⟨dirs, song :: songs⟩ s)
    (ho : outcome song.destroy s = .ok ()) :
    Halfway disk depth p path v done ⟨dirs, songs⟩ (after song.destroy s) := by
  have hs : Sound s.db := h.enclosed.sound
  obtain ⟨⟨row, hrow, hparent, -⟩, hown⟩ := List.forall_mem_cons.mp h.own
  have ht := destroySong_ok (hs.songs _ hrow).ne' ho
  have hdb : (after song.destroy s).db =
      s.db.mapSongs fun t => t.deleteWhere fun id _ => id == song.dbId := congrArg Prod.fst ht
  have hmem : ∀ r, r ∈ (after song.destroy s).db.songs.rows ↔
      r ∈ s.db.songs.rows ∧ r.1 ≠ song.dbId := by
    intro r
    rw [hdb]
    exact Table.mem_rows_deleteWhere.trans (and_congr_right fun _ => by simp)
  have hin : ∀ r ∈ s.db.songs.rows, r.1 = song.dbId → r.2.dirId = p := by
    rintro ⟨x, row'⟩ hr rfl
    have hlookup := Table.lookup_eq_some.mpr hr
    rw [Table.lookup_eq_some.mpr hrow] at hlookup
    rw [← Option.some.inj hlookup]
    exact hparent
  have hids := List.nodup_cons.mp h.songIds
  exact {
    enclosed := h.enclosed.trans hv {
      toTended := destroySong_tended hs song
      newDirs := fun r hr => by
        rw [ht] at hr
        exact .inl hr
      songs := fun r hr hout => (hmem r).mpr ⟨hr, fun heq => hout (.inl (hin r hr heq))⟩
      newSongs := fun r hr => .inl ((hmem r).mp hr).1 }
    narrow := by
      rw [hdb]
      exact h.narrow
    listed := by
      rw [hdb]
      exact h.listed
    own := fun q hq => by
      obtain ⟨row', hr', hp', hself'⟩ := hown q hq
      exact ⟨row', (hmem _).mpr ⟨hr', fun heq => hids.1 (heq ▸ List.mem_map_of_mem hq)⟩, hp',
        hself'⟩
    dirIds := h.dirIds
    songIds := hids.2
    dirs := by
      rw [hdb]
      exact h.dirs
    songs := h.songs.congr fun r => by
      rw [hmem]
      constructor
      · rintro ⟨⟨⟨hr, hne⟩, hrp⟩, hoff⟩
        exact ⟨⟨hr, hrp⟩, List.forall_mem_cons.mpr ⟨hne.symm, hoff⟩⟩
      · rintro ⟨⟨hr, hrp⟩, hoff⟩
        obtain ⟨hne, hoff⟩ := List.forall_mem_cons.mp hoff
        exact ⟨⟨⟨hr, hne.symm⟩, hrp⟩, hoff⟩
    below := fun r hr hrp hoff => by
      rw [hdb] at hr
      refine (h.below r hr hrp hoff).of_same ⟨fun q _ => by rw [hdb]; rfl, fun q hq => ?_⟩
      rw [hmem]
      refine and_iff_left_of_imp fun hq' heq => ?_
      rw [hin q hq' heq] at hq
      exact hs.linked.dirs.parent_not_mem ⟨r.2, hr, hrp⟩ hq }

/-- With the lists empty the directory has what the disk has. -/
theorem Halfway.reflects (h : Halfway disk depth p path v (disk.leaves 0 path).1 ⟨[], []⟩ s) :
    Reflects disk (depth + 1) path s.db p := by
  have hdirs : ∀ x, Unmet.OffDirs ⟨[], []⟩ x := fun x c hc => by cases hc
  have hsongs : ∀ x, Unmet.OffSongs ⟨[], []⟩ x := fun x q hq => by cases hq
  refine ⟨h.dirs.congr fun r => ?_, h.songs.congr fun r => ?_, fun r hr hrp => ?_⟩
  · exact ⟨fun hr => ⟨hr, hdirs _⟩, And.left⟩
  · exact ⟨fun hr => ⟨hr, hsongs _⟩, And.left⟩
  · exact h.below r hr hrp (hdirs _)

/-- What was not met is deleted. -/
theorem Halfway.deleteUnmet (hv : Sound v.1) (h : Halfway disk depth p path v done left s)
    (ho : outcome (do
      left.dirs.forM MusicDir.destroy
      left.songs.forM Song.destroy) s = .ok ())
    (hw : ¬ Wide (after (do
      left.dirs.forM MusicDir.destroy
      left.songs.forM Song.destroy) s)) :
    Halfway disk depth p path v done ⟨[], []⟩ (after (do
      left.dirs.forM MusicDir.destroy
      left.songs.forM Song.destroy) s) := by
  obtain ⟨dirs, songs⟩ := left
  obtain ⟨_, hdirs, hw₁, hsongs, hafter⟩ :=
    bind_narrow (fun _ => Keeps.forM songs watched_scans.destroySong) ho hw
  rw [hafter] at hw ⊢
  have hfirst : Halfway disk depth p path v done ⟨[], songs⟩
      (after (dirs.forM MusicDir.destroy) s) := by
    clear hsongs hafter hw ho
    induction dirs generalizing s with
    | nil => exact h
    | cons c dirs ih =>
      obtain ⟨_, hc, hwc, hrest, hafter⟩ :=
        bind_narrow (fun _ => Keeps.forM dirs watched_scans.destroy) hdirs hw₁
      exact hafter ▸ ih (h.destroyDir hv hc hwc) hrest (hafter ▸ hw₁)
  clear h hdirs hw₁ hafter ho hw
  generalize after (dirs.forM MusicDir.destroy) s = s at hfirst hsongs ⊢
  induction songs generalizing s with
  | nil => exact hfirst
  | cons song songs ih =>
    obtain ⟨_, hsong, hrest⟩ := bind_eq_ok.mp hsongs
    have hafter := after_bind_ok hsong fun _ => songs.forM Song.destroy
    exact hafter ▸ ih _ (hfirst.destroySong hv hsong) hrest

/-! ## `sync` -/

/-- A sequence whose first part leaves the tables. -/
theorem quiet_ok {α β : Type} {x : Scan α} {f : α → Scan β} {b : β} (hx : Quiet x)
    (ho : outcome (x >>= f) s = .ok b) : ∃ a s₁, outcome x s = .ok a ∧ tables s₁ = tables s ∧
      outcome (f a) s₁ = .ok b ∧ after (x >>= f) s = after (f a) s₁ := by
  obtain ⟨a, ha, hb⟩ := bind_eq_ok.mp ho
  exact ⟨a, after x s, ha, hx s, hb, after_bind_ok ha _⟩

/-- At the start all rows of the directory are on the lists. -/
theorem Halfway.start (hs : Sound s.db) (hn : Narrow s.db) :
    Halfway disk depth p path (tables s) []
      ⟨MusicDir.childList s.db p, MusicDir.songList s.db p⟩ s := by
  have hdirs : ∀ r ∈ s.db.musicDirs.rows, r.2.parentId = p →
      ¬ Unmet.OffDirs ⟨MusicDir.childList s.db p, MusicDir.songList s.db p⟩ r.1 :=
    fun r hr hrp hoff =>
      hoff (.ofRow r.1 r.2) (MusicDir.mem_childList.mpr ⟨r.2, hr, hrp, rfl⟩) rfl
  have hsongs : ∀ r ∈ s.db.songs.rows, r.2.dirId = p →
      ¬ Unmet.OffSongs ⟨MusicDir.childList s.db p, MusicDir.songList s.db p⟩ r.1 :=
    fun r hr hrp hoff =>
      hoff (.ofRow r.1 r.2) (MusicDir.mem_songList.mpr ⟨r.2, hr, hrp, rfl⟩) rfl
  exact {
    enclosed := .refl hs
    narrow := hn
    listed := childList_listed _
    own := fun q hq => by
      obtain ⟨row, hrow, hdir, hself⟩ := MusicDir.mem_songList.mp hq
      exact ⟨row, hrow, hdir, congrArg Song.fileName hself⟩
    dirIds := childList_nodup s.db p
    songIds := songList_nodup s.db p
    dirs := .nil fun r ⟨⟨hr, hrp⟩, hoff⟩ => hdirs r hr hrp hoff
    songs := .nil fun r ⟨⟨hr, hrp⟩, hoff⟩ => hsongs r hr hrp hoff
    below := fun r hr hrp hoff => absurd hoff (hdirs r hr hrp) }

theorem syncSaved_reflects (hstill : disk.Still)
    (hsync : ReflectsSync disk depth (MusicDir.syncFrom disk (Song.createFromFile disk) depth)) :
    ReflectsSync disk (depth + 1)
      (MusicDir.syncSaved disk (Song.createFromFile disk) (depth + 1)) := by
  intro d path s hs hn hd hpl ho hw
  have hchildren : Quiet d.children.run.scan := Queries.scan (.run (.loadRows _ _))
  have hsongs : Quiet d.songs.run.scan := Queries.scan (.run (.loadRows _ _))
  unfold MusicDir.syncSaved at ho hw ⊢
  obtain ⟨names, s₁, hnames, h₁, ho, hafter⟩ := quiet_ok (Queries.scan (.path d)) ho
  obtain rfl := path_placed hn hd hpl hnames
  rw [hafter] at hw ⊢
  obtain ⟨found, s₂, hfound, h₂, ho, hafter⟩ := quiet_ok (keeps_existsAt quiet_reading disk _) ho
  rw [hafter] at hw ⊢
  have h₂ := h₂.trans h₁
  have hseen := existsAt_triple hstill names s₁ rfl
  rw [hfound] at hseen
  cases found with
  | false =>
    simp only [Bool.false_eq_true, if_false] at ho hw ⊢
    rw [after_pure, h₂]
    exact ⟨.refl hs, fun hthere => absurd (hseen.2.mpr hthere) (by decide)⟩
  | true =>
    simp only [if_true] at ho hw ⊢
    obtain ⟨dirs, s₃, hdirs, h₃, ho, hafter⟩ := quiet_ok hchildren ho
    rw [hafter] at hw ⊢
    obtain rfl := of_children_ok hdirs
    have h₃ := h₃.trans h₂
    obtain ⟨songs, s₄, hsongs, h₄, ho, hafter⟩ := quiet_ok hsongs ho
    rw [hafter] at hw ⊢
    obtain rfl := of_songs_ok hsongs
    have h₄ := h₄.trans h₃
    have hdb₂ : s₂.db = s.db := congrArg Prod.fst h₂
    have hdb₃ : s₃.db = s.db := congrArg Prod.fst h₃
    have hdb₄ : s₄.db = s.db := congrArg Prod.fst h₄
    obtain ⟨names', s₅, hnames', h₅, ho, hafter⟩ := quiet_ok (Queries.scan (.path d)) ho
    rw [hafter] at hw ⊢
    rw [← hdb₄] at hn hd hpl
    rw [path_placed hn hd hpl hnames'] at ho hw ⊢
    have h₅ := h₅.trans h₄
    obtain ⟨⟨leaves, fails⟩, s₆, hlist, h₆, ho, hafter⟩ :=
      quiet_ok (keeps_list quiet_reading disk _) ho
    rw [hafter] at hw ⊢
    have h₆ := h₆.trans h₅
    have hleaves := of_list_ok hlist
    rw [hstill.leaves s₅.world.readings] at hleaves
    obtain ⟨rfl, rfl⟩ := Prod.mk.inj hleaves
    simp only at ho hw ⊢
    obtain ⟨unmet, hvisits, hw₁, ho, hafter⟩ := bind_narrow (fun unmet => by
      split
      · exact Keeps.throw _
      · exact (Keeps.forM _ watched_scans.destroy).bind fun _ =>
          Keeps.forM _ watched_scans.destroySong) ho hw
    rw [hafter] at hw ⊢
    have hstart : Halfway disk depth d.dbId names (tables s) []
        ⟨MusicDir.childList s₂.db d.dbId, MusicDir.songList s₃.db d.dbId⟩ s₆ := by
      rw [hdb₂, hdb₃]
      exact (Halfway.start hs (hdb₄ ▸ hn)).same h₆
    rw [hdb₄] at hd hpl
    have hloop := visits_halfway hs hstill hsync (watched_scans.syncFrom disk depth) hd hpl
      (disk.leaves 0 names).1 hstart (hstill.distinct names) (hstill.stored names) hvisits hw₁
    split at ho
    · cases ho
    · rename_i hends
      rw [if_neg hends] at hw ⊢
      have hlast := hloop.deleteUnmet hs ho hw
      exact ⟨hlast.enclosed, fun _ => hlast.reflects⟩

theorem ReflectsSync.of_saved {depth : Nat} (h : ReflectsSync disk depth
      (MusicDir.syncSaved disk (Song.createFromFile disk) depth)) :
    ReflectsSync disk depth (MusicDir.syncFrom disk (Song.createFromFile disk) depth) := by
  intro d path s hs hn hd hpl ho hw
  rw [syncFrom_eq] at ho hw ⊢
  obtain ⟨names, s₁, -, h₁, ho, hafter⟩ := quiet_ok (Queries.scan (.path d)) ho
  rw [hafter] at hw ⊢
  have hdb : s₁.db = s.db := congrArg Prod.fst h₁
  rw [← h₁]
  rw [← hdb] at hs hn hd hpl
  rw [saveIfNeeded_saved hs hpl.mem, pure_bind] at ho hw ⊢
  exact h d path s₁ hs hn hd hpl ho hw

/-- A `sync` that returns leaves the directory as the disk has it. -/
theorem syncFrom_reflects (hstill : disk.Still) (depth : Nat) :
    ReflectsSync disk depth (MusicDir.syncFrom disk (Song.createFromFile disk) depth) := by
  induction depth with
  | zero => exact .of_saved fun d path s hs _ _ _ _ _ => ⟨.refl hs, fun _ => trivial⟩
  | succ depth ih => exact .of_saved (syncSaved_reflects hstill ih)

end

end Spinny

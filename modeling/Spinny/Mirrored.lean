import Spinny.Mirroring

/-!
# Rescans of a disk that stays as it is

What a rescan leaves below a root is what the disk has there, and another rescan finds nothing to
do.

* `Resting`: the loop over the leaves of a directory that is as the disk has it.
* `syncFrom_again`: `sync` of such a directory changes nothing, however it ends.
* `rescan_reflects`: a rescan of all configured directories, and one more.
-/

namespace Spinny

open Bytes Sqlite Proc

variable [Affinity]

section

variable {disk : Disk} {depth : Nat} {p : Int} {path : List Bytes} {v : Database × List Database}
  {done : List Bytes} {left : Unmet} {leaf : Bytes} {s : Logged} {sync : MusicDir → Scan Unit}

/-! ## Once more -/

/-- The tables stay `v`. -/
abbrev Rests {α : Type} (v : Database × List Database) (x : Scan α) : Prop :=
  Triple (fun s => tables s = v) x (fun _ s => tables s = v) fun _ s => tables s = v

theorem Quiet.rests {α : Type} {x : Scan α} (h : Quiet x) : Rests v x :=
  .of_after fun s hs => (h s).trans hs

/-- A part that leaves the tables and can return `a` only. -/
theorem Quiet.rests_bind {α β : Type} {x : Scan α} {f : α → Scan β} (h : Quiet x) (a : α)
    (hok : ∀ s a', tables s = v → outcome x s = .ok a' → a' = a) (hf : Rests v (f a)) :
    Rests v (x >>= f) := by
  refine Triple.bind (Q := fun a' s => tables s = v ∧ a' = a) ?_ fun a' => ?_
  · exact Triple.intro (fun s a' hs ho => ⟨(h s).trans hs, hok s a' hs ho⟩)
      fun s _ hs _ => (h s).trans hs
  · refine Triple.of_single fun s ⟨hs, ha⟩ => ?_
    rw [ha]
    exact hf.conseq (fun _ hs' => hs' ▸ hs) (fun _ _ h => h) fun _ _ h => h

/-- `sync` of a directory that is as the disk has it changes nothing; where the disk has nothing
at its path, it turns back. -/
def RestsSync (disk : Disk) (depth : Nat) (sync : MusicDir → Scan Unit) : Prop :=
  ∀ d path v, Sound v.1 → Narrow v.1 → d.IsRow v.1 → Placed v.1.musicDirs d.dbId path →
    (disk.status 0 path ≠ .missing → Reflects disk depth path v.1 d.dbId) → Rests v (sync d)

/-- The elements of a list whose names have not come up yet. -/
structure Awaited {α : Type} (name : α → Bytes) (all : List α) (done : List Bytes)
    (left : List α) : Prop where
  mem : ∀ a, a ∈ left ↔ a ∈ all ∧ name a ∉ done
  names : (left.map name).Nodup

namespace Awaited

omit [Affinity]

variable {α : Type} {name : α → Bytes} {all left : List α}

theorem start (h : (all.map name).Nodup) : Awaited name all [] all where
  mem a := by simp
  names := h

theorem pass (h : Awaited name all done left) (hleaf : ∀ a ∈ left, name a ≠ leaf) :
    Awaited name all (done ++ [leaf]) left where
  mem a := by
    rw [h.mem, List.mem_append, List.mem_singleton, not_or]
    exact and_congr_right fun ha => ⟨fun hd => ⟨hd, hleaf a ((h.mem a).mpr ⟨ha, hd⟩)⟩, And.left⟩
  names := h.names

theorem meet (h : Awaited name all done left) {a : α}
    (ha : left.find? (fun b => name b == leaf) = some a) :
    Awaited name all (done ++ [leaf]) (left.eraseP fun b => name b == leaf) where
  mem b := by
    have hname : name a = leaf := by simpa using List.find?_some ha
    rw [List.mem_append, List.mem_singleton, not_or, ← and_assoc, ← h.mem]
    constructor
    · intro hb
      exact ⟨List.mem_of_mem_eraseP hb, hname ▸ Lists.ne_of_mem_eraseP h.names ha hb⟩
    · rintro ⟨hb, hne⟩
      refine (Lists.mem_eraseP_or ha hb).resolve_left ?_
      rintro rfl
      exact hne hname
  names := h.names.sublist (List.eraseP_sublist.map _)

theorem eq_nil (h : Awaited name all done left) (hall : ∀ a ∈ all, name a ∈ done) : left = [] := by
  refine List.eq_nil_iff_forall_not_mem.mpr fun a ha => ?_
  obtain ⟨ha, hd⟩ := (h.mem a).mp ha
  exact hd (hall a ha)

end Awaited

/-- The loop over the leaves has come behind those of `done` and has changed nothing. -/
structure Resting (p : Int) (v : Database × List Database) (done : List Bytes) (left : Unmet)
    (s : Logged) : Prop where
  same : tables s = v
  dirs : Awaited MusicDir.name (MusicDir.childList v.1 p) done left.dirs
  songs : Awaited Song.fileName (MusicDir.songList v.1 p) done left.songs

/-- At the start all names are to come. -/
theorem Resting.start (h : Reflects disk (depth + 1) path v.1 p) (hs : tables s = v) :
    Resting p v [] ⟨MusicDir.childList v.1 p, MusicDir.songList v.1 p⟩ s := by
  obtain ⟨hdirs, hsongs, -⟩ := h
  refine ⟨hs, .start ?_, .start ?_⟩
  · refine hdirs.nodup (fun r => MusicDir.ofRow r.1 r.2) (fun _ => rfl)
      (childList_nodup v.1 p).of_map fun c hc => ?_
    obtain ⟨row, hrow, hparent, hself⟩ := MusicDir.mem_childList.mp hc
    exact ⟨(c.dbId, row), ⟨hrow, hparent⟩, hself⟩
  · refine hsongs.nodup (fun r => Song.ofRow r.1 r.2) (fun _ => rfl)
      (songList_nodup v.1 p).of_map fun q hq => ?_
    obtain ⟨row, hrow, hdir, hself⟩ := MusicDir.mem_songList.mp hq
    exact ⟨(q.dbId, row), ⟨hrow, hdir⟩, hself⟩

/-- Nothing that was not met has the name of the leaf. -/
theorem Resting.pass (h : Resting p v done left s) {s' : Logged} (hs : tables s' = v)
    (hdirs : ∀ c ∈ left.dirs, c.name ≠ leaf) (hsongs : ∀ q ∈ left.songs, q.fileName ≠ leaf) :
    Resting p v (done ++ [leaf]) left s' := ⟨hs, h.dirs.pass hdirs, h.songs.pass hsongs⟩

/-- A directory of the list has the name of a directory on the disk. -/
theorem Resting.isDir (h : Resting p v done left s) (hreflects : Reflects disk (depth + 1) path v.1 p)
    {c : MusicDir} (hc : c ∈ left.dirs) : disk.IsDir path c.name := by
  obtain ⟨row, hrow, hparent, hself⟩ := MusicDir.mem_childList.mp ((h.dirs.mem c).mp hc).1
  rw [hself]
  exact (hreflects.1.listed (c.dbId, row) ⟨hrow, hparent⟩).2

/-- A song of the list has the name of a song. -/
theorem Resting.isSong (h : Resting p v done left s)
    (hreflects : Reflects disk (depth + 1) path v.1 p) {q : Song} (hq : q ∈ left.songs) :
    disk.IsSong path q.fileName := by
  obtain ⟨row, hrow, hdir, hself⟩ := MusicDir.mem_songList.mp ((h.songs.mem q).mp hq).1
  rw [hself]
  exact (hreflects.2.1.listed (q.dbId, row) ⟨hrow, hdir⟩).2

/-- A leaf that is a directory stands on the list. -/
theorem visitDir_resting (hsync : RestsSync disk depth sync) {d : MusicDir}
    (hs : Sound v.1) (hn : Narrow v.1) (hpl : Placed v.1.musicDirs d.dbId path)
    (hreflects : Reflects disk (depth + 1) path v.1 d.dbId)
    (hleaf : leaf ∈ (disk.leaves 0 path).1) (hnew : leaf ∉ done) (hdir : disk.IsDir path leaf) :
    Triple (Resting d.dbId v done left) (d.visitDir sync left leaf)
      (Resting d.dbId v (done ++ [leaf])) fun _ s => tables s = v := by
  refine Triple.of_single fun s h => ?_
  obtain ⟨prow, hprow⟩ := hpl.mem
  unfold MusicDir.visitDir
  cases hfind : left.dirs.find? fun c => c.name == leaf with
  | none =>
    obtain ⟨r, ⟨hr, hrp⟩, hname⟩ := hreflects.1.every leaf hleaf hdir
    have hleft : MusicDir.ofRow r.1 r.2 ∈ left.dirs := by
      refine (h.dirs.mem _).mpr ⟨MusicDir.mem_childList.mpr ⟨r.2, hr, hrp, rfl⟩, ?_⟩
      rw [show (MusicDir.ofRow r.1 r.2).name = leaf from hname]
      exact hnew
    exact absurd (beq_iff_eq.mpr hname) (List.find?_eq_none.mp hfind _ hleft)
  | some child =>
    have hname : child.name = leaf := by simpa using List.find?_some hfind
    obtain ⟨row, hrow, hparent, hself⟩ :=
      MusicDir.mem_childList.mp ((h.dirs.mem child).mp (List.mem_of_find?_eq_some hfind)).1
    have hrowName : row.name.val = leaf := by
      rw [← hname, hself]
      rfl
    have hplaced : Placed v.1.musicDirs child.dbId (path ++ [leaf]) := by
      obtain ⟨parentId, name⟩ := row
      obtain rfl := hparent
      obtain rfl := hrowName
      exact .child hrow (hs.dirs _ hprow).ne' hpl
    have hbelow := hreflects.2.2 (child.dbId, row) hrow hparent
    rw [hrowName] at hbelow
    have hrests := hsync child (path ++ [leaf]) v hs hn ⟨row, hrow, hself⟩ hplaced
      fun _ => hbelow
    refine Triple.bind (hrests.conseq (fun _ hs => hs ▸ h.same) (fun _ _ h => h) fun _ _ h => h)
      fun _ => fun s' hs' => ⟨hs', h.dirs.meet hfind, h.songs.pass fun q hq heq => ?_⟩
    exact not_isDir (h.isSong hreflects hq).1 (heq ▸ hdir)

/-- A leaf that is a file stands on the list, or nothing is recorded of it. -/
theorem visitFile_resting (hstill : disk.Still) {d : MusicDir} (hs : Sound v.1) (hn : Narrow v.1)
    (hd : d.IsRow v.1) (hpl : Placed v.1.musicDirs d.dbId path)
    (hreflects : Reflects disk (depth + 1) path v.1 d.dbId)
    (hleaf : leaf ∈ (disk.leaves 0 path).1) (hnew : leaf ∉ done)
    (hfile : disk.status 0 (path ++ [leaf]) = .file) :
    Triple (Resting d.dbId v done left) (d.visitFile (Song.createFromFile disk) left leaf)
      (Resting d.dbId v (done ++ [leaf])) fun _ s => tables s = v := by
  refine Triple.of_single fun s h => ?_
  have hdirs : ∀ c ∈ left.dirs, c.name ≠ leaf :=
    fun c hc heq => not_isDir hfile (heq ▸ h.isDir hreflects hc)
  unfold MusicDir.visitFile
  split
  · split
    · rename_i hany
      obtain ⟨q, hq, hname⟩ := List.any_eq_true.mp hany
      cases hfind : left.songs.find? fun q => q.fileName == leaf with
      | none => exact absurd hname (List.find?_eq_none.mp hfind q hq)
      | some song =>
        rintro _ rfl
        exact ⟨h.same, h.dirs.pass hdirs, h.songs.meet hfind⟩
    · rename_i hany
      have hsongs : ∀ q ∈ left.songs, q.fileName ≠ leaf := fun q hq hname =>
        hany (List.any_eq_true.mpr ⟨q, hq, beq_iff_eq.mpr hname⟩)
      have hnone : ¬ disk.IsSong path leaf := by
        intro hsong
        obtain ⟨r, ⟨hr, hrp⟩, hname⟩ := hreflects.2.1.every leaf hleaf hsong
        refine hsongs (Song.ofRow r.1 r.2) ((h.songs.mem _).mpr ⟨?_, ?_⟩) hname
        · exact MusicDir.mem_songList.mpr ⟨r.2, hr, hrp, rfl⟩
        · rw [show (Song.ofRow r.1 r.2).fileName = leaf from hname]
          exact hnew
      have hcreate : Rests v (Song.createFromFile disk d leaf) := by
        refine Triple.of_single fun s' hs' => ?_
        subst hs'
        exact (createFromFile_triple hstill hs hn hd hpl hfile).conseq (fun _ h => h)
          (fun _ _ h => absurd h.1 hnone) fun _ _ h => h.1
      have hmade : Rests v (do let _ ← Song.createFromFile disk d leaf : Scan Unit) :=
        hcreate.bind fun _ => Triple.pure (Q := fun _ s => tables s = v) ()
      have hpassed : ∀ e, Rests v (passFileErrors e) := by
        intro e
        cases e with
        | fileError => exact fun _ h => h
        | raise r => exact fun _ h => h
        | filesystemError => exact fun _ h => h
        | nullTag => exact fun _ h => h
      refine Triple.bind (((hmade.tryCatch hpassed)).conseq (fun _ hs => hs ▸ h.same)
        (fun _ _ h => h) fun _ _ h => h) fun _ => ?_
      exact fun s' hs' => h.pass hs' hdirs hsongs
  · rename_i hname
    rintro _ rfl
    refine h.pass h.same hdirs fun q hq heq => hname ?_
    exact heq ▸ (h.isSong hreflects hq).2

/-- One turn of the loop. -/
theorem visit_resting (hstill : disk.Still) (hsync : RestsSync disk depth sync) {d : MusicDir}
    (hs : Sound v.1) (hn : Narrow v.1) (hd : d.IsRow v.1)
    (hpl : Placed v.1.musicDirs d.dbId path) (hreflects : Reflects disk (depth + 1) path v.1 d.dbId)
    (hleaf : leaf ∈ (disk.leaves 0 path).1) (hnew : leaf ∉ done) :
    Triple (Resting d.dbId v done left)
      (d.visit disk (Song.createFromFile disk) sync path left leaf)
      (Resting d.dbId v (done ++ [leaf])) fun _ s => tables s = v := by
  have hquiet := keeps_isDirectory quiet_reading disk (path ++ [leaf])
  unfold MusicDir.visit
  refine Triple.bind (Q := fun isDir s => Resting d.dbId v done left s ∧
    disk.status 0 (path ++ [leaf]) = if isDir then .directory else .file) ?_ fun isDir => ?_
  · refine Triple.intro (fun s isDir h ho => ?_) fun s e h _ => (hquiet s).trans h.same
    obtain ⟨n, hstatus⟩ := isDirectory_ok ho
    rw [hstill.status n] at hstatus
    exact ⟨⟨(hquiet s).trans h.same, h.dirs, h.songs⟩, hstatus⟩
  · refine Triple.of_single fun s ⟨h, hstatus⟩ => ?_
    have hone : ∀ s', s' = s → Resting d.dbId v done left s' := fun s' hs' => hs' ▸ h
    cases isDir with
    | true =>
      exact (visitDir_resting hsync hs hn hpl hreflects hleaf hnew hstatus).conseq hone
        (fun _ _ h => h) fun _ _ h => h
    | false =>
      exact (visitFile_resting hstill hs hn hd hpl hreflects hleaf hnew hstatus).conseq hone
        (fun _ _ h => h) fun _ _ h => h

/-- The loop over the leaves. -/
theorem visits_resting (hstill : disk.Still) (hsync : RestsSync disk depth sync) {d : MusicDir}
    (hs : Sound v.1) (hn : Narrow v.1) (hd : d.IsRow v.1)
    (hpl : Placed v.1.musicDirs d.dbId path) (hreflects : Reflects disk (depth + 1) path v.1 d.dbId)
    (rest : List Bytes) (hleaves : ∀ leaf ∈ rest, leaf ∈ (disk.leaves 0 path).1)
    (hdistinct : (done ++ rest).Nodup) :
    Triple (Resting d.dbId v done left)
      (rest.foldlM (d.visit disk (Song.createFromFile disk) sync path) left)
      (Resting d.dbId v (done ++ rest)) fun _ s => tables s = v := by
  induction rest generalizing done left with
  | nil =>
    rw [List.append_nil]
    exact Triple.pure left
  | cons leaf rest ih =>
    obtain ⟨hleaf, hleaves⟩ := List.forall_mem_cons.mp hleaves
    have hnew : leaf ∉ done := fun hin =>
      (List.nodup_append.mp hdistinct).2.2 leaf hin leaf List.mem_cons_self rfl
    rw [List.append_cons] at hdistinct ⊢
    rw [List.foldlM_cons]
    exact (visit_resting hstill hsync hs hn hd hpl hreflects hleaf hnew).bind
      fun left => ih hleaves hdistinct

/-- At the end nothing is on the lists. -/
theorem Resting.unmet_nil (h : Resting p v (disk.leaves 0 path).1 left s)
    (hreflects : Reflects disk (depth + 1) path v.1 p) : left = ⟨[], []⟩ := by
  have hdirs : left.dirs = [] := h.dirs.eq_nil fun c hc => by
    obtain ⟨row, hrow, hparent, hself⟩ := MusicDir.mem_childList.mp hc
    rw [hself]
    exact (hreflects.1.listed (c.dbId, row) ⟨hrow, hparent⟩).1
  have hsongs : left.songs = [] := h.songs.eq_nil fun q hq => by
    obtain ⟨row, hrow, hdir, hself⟩ := MusicDir.mem_songList.mp hq
    rw [hself]
    exact (hreflects.2.1.listed (q.dbId, row) ⟨hrow, hdir⟩).1
  obtain ⟨dirs, songs⟩ := left
  obtain rfl : dirs = [] := hdirs
  obtain rfl : songs = [] := hsongs
  rfl

theorem syncSaved_again (hstill : disk.Still)
    (hsync : RestsSync disk depth (MusicDir.syncFrom disk (Song.createFromFile disk) depth)) :
    RestsSync disk (depth + 1)
      (MusicDir.syncSaved disk (Song.createFromFile disk) (depth + 1)) := by
  intro d path v hs hn hd hpl hreflects
  have hchildren : Quiet d.children.run.scan := Queries.scan (.run (.loadRows _ _))
  have hsongs : Quiet d.songs.run.scan := Queries.scan (.run (.loadRows _ _))
  unfold MusicDir.syncSaved
  refine Quiet.rests_bind (Queries.scan (.path d)) path ?_ ?_
  · rintro s names rfl ho
    exact path_placed hn hd hpl ho
  refine Triple.bind ((existsAt_triple hstill path).conseq (fun _ h => h) (fun _ _ h => h)
    fun _ _ h => h.1) fun found => Triple.of_single fun s₀ ⟨hs₀, hfound⟩ => ?_
  have hone : ∀ s', s' = s₀ → tables s' = v := fun s' hs' => hs' ▸ hs₀
  refine Triple.conseq (P := fun s => tables s = v) ?_ hone (fun _ _ h => h) fun _ _ h => h
  split
  · rename_i hthere
    have hreflects := hreflects (hfound.mp hthere)
    refine hchildren.rests_bind (MusicDir.childList v.1 d.dbId) ?_ ?_
    · rintro s dirs rfl ho
      exact of_children_ok ho
    refine hsongs.rests_bind (MusicDir.songList v.1 d.dbId) ?_ ?_
    · rintro s songs rfl ho
      exact of_songs_ok ho
    refine Quiet.rests_bind (Queries.scan (.path d)) path ?_ ?_
    · rintro s names rfl ho
      exact path_placed hn hd hpl ho
    refine Quiet.rests_bind (keeps_list quiet_reading disk path) (disk.leaves 0 path) ?_ ?_
    · rintro s entries - ho
      rw [of_list_ok ho, hstill.leaves]
    have hvisits : Triple (Resting d.dbId v []
        ⟨MusicDir.childList v.1 d.dbId, MusicDir.songList v.1 d.dbId⟩) _
          (Resting d.dbId v (disk.leaves 0 path).1) _ :=
      visits_resting hstill hsync hs hn hd hpl hreflects _ (fun _ h => h) (hstill.distinct path)
    refine Triple.bind (hvisits.conseq (fun _ h => Resting.start hreflects h) (fun _ _ h => h)
      fun _ _ h => h) fun unmet => ?_
    refine Triple.of_single fun s h => ?_
    obtain rfl := h.unmet_nil hreflects
    split
    · rintro _ rfl
      exact h.same
    · rintro _ rfl
      exact h.same
  · exact Triple.pure (Q := fun _ s => tables s = v) ()

theorem RestsSync.of_saved {depth : Nat} (h : RestsSync disk depth
      (MusicDir.syncSaved disk (Song.createFromFile disk) depth)) :
    RestsSync disk depth (MusicDir.syncFrom disk (Song.createFromFile disk) depth) := by
  intro d path v hs hn hd hpl hreflects
  rw [syncFrom_eq]
  refine Quiet.rests (Queries.scan (.path d)) |>.bind fun _ => Triple.of_single fun s hv => ?_
  subst hv
  rw [saveIfNeeded_saved hs hpl.mem, pure_bind]
  exact (h d path (tables s) hs hn hd hpl hreflects).conseq (fun _ hs' => hs' ▸ rfl)
    (fun _ _ h => h) fun _ _ h => h

/-- `sync` of a directory that is as the disk has it changes nothing, however it ends. -/
theorem syncFrom_again (hstill : disk.Still) (depth : Nat) :
    RestsSync disk depth (MusicDir.syncFrom disk (Song.createFromFile disk) depth) := by
  induction depth with
  | zero => exact .of_saved fun d path v _ _ _ _ _ => Triple.pure (Q := fun _ s => tables s = v) ()
  | succ depth ih => exact .of_saved (syncSaved_again hstill ih)

end

/-! ## Roots -/

/-- The root that `create_root` finds. -/
structure RootOf (dir : Bytes) (db : Database) (r : Int × DirRow) : Prop where
  mem : r ∈ db.musicDirs.rows
  parent : r.2.parentId = 0
  name : r.2.name.cell = store dir
  first : ∀ q ∈ db.musicDirs.rows, q.2.parentId = 0 → q.2.name.cell = store dir → r.1 ≤ q.1

/-- There is the root, and the rows below it are what the disk has at its path, if it has something
there. -/
def Mirrored (disk : Disk) (dir : Bytes) (db : Database) : Prop :=
  ∃ r, RootOf dir db r ∧
    (disk.status 0 [r.2.name.val] ≠ .missing → Reflects disk 255 [r.2.name.val] db r.1)

/-- A root lies below no directory. -/
theorem Forest.root_not_below {t : Table DirRow} (hf : Forest t) {r : Int × DirRow}
    (hr : r ∈ t.rows) (hp : r.2.parentId = 0) {x : Int} (hx : x ≠ 0) : ¬ Below t x r.1 := by
  intro h
  obtain ⟨y, hry, hy⟩ := Relation.TransGen.head'_iff.mp h
  obtain rfl : (0 : Int) = y := IsChild.unique ⟨r.2, hr, hp⟩ hry
  rcases Relation.reflTransGen_iff_eq_or_transGen.mp hy with rfl | hb
  · exact hx rfl
  · obtain ⟨z, ⟨row, hrow, -⟩, -⟩ := Relation.TransGen.head'_iff.mp hb
    exact (hf _ hrow).1 rfl

section

variable {disk : Disk} {s : Logged} {dir : Bytes}

/-- `create_root` comes to the root it finds, or there is none with the name. -/
theorem createRoot_first {w : World} {d : MusicDir}
    (h : outcome (MusicDir.createRoot dir) w = .ok d) :
    (∃ row, RootOf dir w.db (d.dbId, row) ∧ d = .ofRow d.dbId row) ∨
      d = ⟨0, 0, dir⟩ ∧ ∀ q ∈ w.db.musicDirs.rows, q.2.parentId = 0 → q.2.name.cell ≠ store dir := by
  obtain ⟨mds, hmds, h⟩ := bind_eq_ok.mp h
  rw [outcome_loadRows] at hmds
  split at hmds
  · cases hmds
  · have hlist := Except.ok.inj hmds
    have hroot : ∀ q : Int × DirRow, (q.2.parentId == 0 && q.2.name.eqLiteral dir) = true ↔
        q.2.parentId = 0 ∧ q.2.name.cell = store dir := by
      intro q
      rw [Bool.and_eq_true, beq_iff_eq, Text.eqLiteral, beq_iff_eq]
    have hall : ∀ q ∈ w.db.musicDirs.rows, q.2.parentId = 0 → q.2.name.cell = store dir →
        q ∈ w.db.musicDirs.select fun _ d => d.parentId == 0 && d.name.eqLiteral dir :=
      fun q hq hp hname => Table.mem_select.mpr ⟨hq, (hroot q).mpr ⟨hp, hname⟩⟩
    have hsorted : (w.db.musicDirs.select fun _ d => d.parentId == 0 &&
        d.name.eqLiteral dir).Pairwise fun a b => a.1 < b.1 :=
      w.db.musicDirs.sorted.sublist List.filter_sublist
    cases hselect : w.db.musicDirs.select fun _ d => d.parentId == 0 && d.name.eqLiteral dir with
    | nil =>
      rw [hselect] at hlist hall
      subst hlist
      refine .inr ⟨(Except.ok.inj h).symm, fun q hq hp hname => ?_⟩
      cases hall q hq hp hname
    | cons r rows =>
      have hr : r ∈ w.db.musicDirs.select fun _ d => d.parentId == 0 && d.name.eqLiteral dir := by
        rw [hselect]
        exact List.mem_cons_self
      obtain ⟨hmem, hnamed⟩ := Table.mem_select.mp hr
      rw [hselect] at hlist hall hsorted
      subst hlist
      obtain rfl := Except.ok.inj h
      refine .inl ⟨r.2, ⟨hmem, ((hroot r).mp hnamed).1, ((hroot r).mp hnamed).2,
        fun q hq hp hname => ?_⟩, rfl⟩
      rcases List.mem_cons.mp (hall q hq hp hname) with rfl | hq
      · exact le_rfl
      · exact (List.pairwise_cons.mp hsorted).1 q hq |>.le

/-- What is done below a directory leaves the roots. -/
theorem Enclosed.root_iff {x : Int} {v v' : Database × List Database} (hv : Sound v.1) (hx : x ≠ 0)
    (h : Enclosed x v v') {r : Int × DirRow} (hp : r.2.parentId = 0) :
    r ∈ v'.1.musicDirs.rows ↔ r ∈ v.1.musicDirs.rows :=
  ⟨fun hr => (h.newDirs r hr).resolve_right (h.sound.linked.dirs.root_not_below hr hp hx),
    fun hr => h.spared r hr (hv.linked.dirs.root_not_below hr hp hx)⟩

theorem RootOf.enclosed {x : Int} {v v' : Database × List Database} (hv : Sound v.1) (hx : x ≠ 0)
    (h : Enclosed x v v') {r : Int × DirRow} (hr : RootOf dir v.1 r) : RootOf dir v'.1 r where
  mem := (h.root_iff hv hx hr.parent).mpr hr.mem
  parent := hr.parent
  name := hr.name
  first q hq hp := hr.first q ((h.root_iff hv hx hp).mp hq) hp

/-- `sync` of a root makes what is below it what the disk has and leaves the other roots. -/
theorem sync_mirrors {sync : MusicDir → Scan Unit} (hsync : ReflectsSync disk 255 sync)
    (hs : Sound s.db) (hn : Narrow s.db) {d : MusicDir} {row : DirRow}
    (hroot : RootOf dir s.db (d.dbId, row)) (hself : d = .ofRow d.dbId row)
    (ho : outcome (sync d) s = .ok ()) (hw : ¬ Wide (after (sync d) s)) :
    Mirrored disk dir (after (sync d) s).db ∧
      ∀ dir', Mirrored disk dir' s.db → Mirrored disk dir' (after (sync d) s).db := by
  obtain ⟨hrow, hp, hname, hfirst⟩ := hroot
  have hid : d.dbId ≠ 0 := (hs.dirs _ hrow).ne'
  have hpl : Placed s.db.musicDirs d.dbId [row.name.val] := by
    obtain ⟨parentId, name⟩ := row
    obtain rfl : parentId = 0 := hp
    exact .root hrow
  obtain ⟨henclosed, hreflects⟩ := hsync d _ s hs hn ⟨row, hrow, hself⟩ hpl ho hw
  have hkept : ∀ {dir' r}, RootOf dir' s.db r → RootOf dir' (after (sync d) s).db r :=
    fun hr => hr.enclosed (v := tables s) hs hid henclosed
  refine ⟨⟨_, hkept ⟨hrow, hp, hname, hfirst⟩, hreflects⟩, ?_⟩
  rintro dir' ⟨r, hr, hold⟩
  refine ⟨r, hkept hr, ?_⟩
  by_cases heq : r.1 = d.dbId
  · obtain ⟨x, row'⟩ := r
    obtain rfl : x = d.dbId := heq
    obtain rfl := Placed.row_unique hr.mem hrow
    exact hreflects
  · have hsame := henclosed.sameBelow hs ⟨r.2, hr.mem⟩ heq
      (hs.linked.dirs.root_not_below hr.mem hr.parent hid)
      (hs.linked.dirs.root_not_below hrow hp (hs.dirs _ hr.mem).ne')
    exact fun hthere => (hold hthere).of_same hsame

/-- A new root leaves the others. -/
theorem Mirrored.newRoot (hs : Sound s.db) {row : DirRow} (hp : row.parentId = 0)
    (hnone : ∀ q ∈ s.db.musicDirs.rows, q.2.parentId = 0 → q.2.name.cell ≠ row.name.cell)
    {dir' : Bytes} (h : Mirrored disk dir' s.db) :
    Mirrored disk dir' (s.db.mapDirs fun t => t.insert row) := by
  obtain ⟨r, hr, hreflects⟩ := h
  refine ⟨r, ⟨Table.mem_rows_insert.mpr (.inl hr.mem), hr.parent, hr.name, ?_⟩, ?_⟩
  · intro q hq hqp hqname
    rcases Table.mem_rows_insert.mp hq with hq | rfl
    · exact hr.first q hq hqp hqname
    · exact absurd (hr.name.trans hqname.symm) (hnone r hr.mem hr.parent)
  · refine fun hthere => (hreflects hthere).of_same ⟨fun q hq => ?_, fun q _ => Iff.rfl⟩
    refine Table.mem_rows_insert.trans (or_iff_left ?_)
    -- nothing below a root has the parent of a root
    rintro rfl
    change row.parentId ∈ subtree s.db.musicDirs r.1 at hq
    rw [hp] at hq
    rcases hq with heq | hb
    · exact (hs.dirs _ hr.mem).ne heq
    · obtain ⟨z, ⟨row', hrow', -⟩, -⟩ := Relation.TransGen.head'_iff.mp hb
      exact (hs.dirs _ hrow').ne' rfl

theorem watched_sync (disk : Disk) (d : MusicDir) : Keeps Watched (d.sync disk) :=
  watched_scans.syncFrom disk 255 d

/-- `sync` of a new root. -/
theorem syncRoot_mirrors (hstill : disk.Still) (hs : Sound s.db) (hn : Narrow s.db)
    (hnone : ∀ q ∈ s.db.musicDirs.rows, q.2.parentId = 0 → q.2.name.cell ≠ store dir)
    (hstored : coerce dir = dir)
    (ho : outcome (MusicDir.sync disk ⟨0, 0, dir⟩) s = .ok ())
    (hw : ¬ Wide (after (MusicDir.sync disk ⟨0, 0, dir⟩) s)) :
    Mirrored disk dir (after (MusicDir.sync disk ⟨0, 0, dir⟩) s).db ∧
      ∀ dir', Mirrored disk dir' s.db →
        Mirrored disk dir' (after (MusicDir.sync disk ⟨0, 0, dir⟩) s).db := by
  unfold MusicDir.sync at ho hw ⊢
  rw [syncFrom_eq] at ho hw ⊢
  obtain ⟨_, s₁, -, h₁, ho, hafter⟩ := quiet_ok (Queries.scan (.path _)) ho
  rw [hafter] at hw ⊢
  have hdb₁ : s₁.db = s.db := congrArg Prod.fst h₁
  rw [← hdb₁] at hs hn hnone ⊢
  have hsaved : MusicDir.saveIfNeeded ⟨0, 0, dir⟩ = MusicDir.saveNew ⟨0, 0, dir⟩ := if_pos rfl
  rw [hsaved] at ho hw ⊢
  obtain ⟨d, hd, hw₁, ho, hafter⟩ := bind_narrow
    (watched_scans.syncSaved disk fun n _ => watched_scans.syncFrom disk n) ho hw
  rw [hafter] at hw ⊢
  obtain ⟨row, hrow, hid, ht⟩ := saveDir_ok hd
  have hp : row.parentId = 0 := parentId_toRow hrow
  have hname : row.name.cell = store dir := name_toRow hrow
  have hpath : row.name.val = dir := (congrArg Cell.print hname).trans hstored
  have hs₁ := (saveDir_tended (p := 0) hs (d := ⟨0, 0, dir⟩) (.inl rfl)).1.sound
  have hn₁ := ((watched_scans.saveDir ⟨0, 0, dir⟩ s₁).narrow hn).resolve_left hw₁
  have hdb : (after (MusicDir.saveNew ⟨0, 0, dir⟩) s₁).db =
      s₁.db.mapDirs fun t => t.insert row := congrArg Prod.fst ht
  have hself : d = .ofRow d.dbId row := by
    rw [saveDir_value hd, MusicDir.ofRow, hp, hpath]
    rfl
  have hroot : RootOf dir (after (MusicDir.saveNew ⟨0, 0, dir⟩) s₁).db (d.dbId, row) := by
    rw [hdb, hid]
    refine ⟨Table.mem_rows_insert.mpr (.inr rfl), hp, hname, ?_⟩
    intro q hq hqp hqname
    rcases Table.mem_rows_insert.mp hq with hq | rfl
    · exact absurd hqname (hnone q hq hqp)
    · exact le_rfl
  have hsync : ReflectsSync disk 255 (MusicDir.syncSaved disk (Song.createFromFile disk) 255) :=
    syncSaved_reflects hstill (syncFrom_reflects hstill 254)
  obtain ⟨hmirrored, hothers⟩ :=
    sync_mirrors hsync hs₁ hn₁ hroot hself ho hw
  refine ⟨hmirrored, fun dir' hold => hothers dir' ?_⟩
  rw [hdb]
  refine hold.newRoot hs hp fun q hq hqp => ?_
  rw [hname]
  exact hnone q hq hqp

/-- One of the directories of a rescan. -/
theorem initMusicDir_mirrors (hstill : disk.Still) (hs : Sound s.db) (hn : Narrow s.db)
    (hstored : coerce dir = dir)
    (ho : outcome (initMusicDir disk dir) s = .ok ()) (hw : ¬ Wide (after (initMusicDir disk dir) s)) :
    Mirrored disk dir (after (initMusicDir disk dir) s).db ∧ ∀ dir', Mirrored disk dir' s.db →
      Mirrored disk dir' (after (initMusicDir disk dir) s).db := by
  unfold initMusicDir at ho hw ⊢
  obtain ⟨d, s₁, hd, h₁, ho, hafter⟩ := quiet_ok (Queries.scan (.run (.createRoot dir))) ho
  rw [hafter] at hw ⊢
  have hdb : s₁.db = s.db := congrArg Prod.fst h₁
  have hfound : outcome (MusicDir.createRoot dir) s.world = .ok d := ok_of_run (ok_of_scan hd)
  have hfirst := createRoot_first hfound
  change (∃ row, RootOf dir s.db (d.dbId, row) ∧ d = .ofRow d.dbId row) ∨
    d = ⟨0, 0, dir⟩ ∧ ∀ q ∈ s.db.musicDirs.rows, q.2.parentId = 0 → q.2.name.cell ≠ store dir at hfirst
  rw [← hdb] at hs hn hfirst ⊢
  rcases hfirst with ⟨row, hroot, hself⟩ | ⟨rfl, hnone⟩
  · exact sync_mirrors (syncFrom_reflects hstill 255) hs hn hroot hself ho hw
  · exact syncRoot_mirrors hstill hs hn hnone hstored ho hw

theorem initMusicDir_watched (disk : Disk) (dir : Bytes) : Keeps Watched (initMusicDir disk dir) :=
  (watched_scans.queries (.run (.createRoot dir))).bind fun d => watched_sync disk d

theorem RootOf.unique {db : Database} {r r' : Int × DirRow} (h : RootOf dir db r)
    (h' : RootOf dir db r') : r = r' := by
  have hid : r.1 = r'.1 :=
    le_antisymm (h.first r' h'.mem h'.parent h'.name) (h'.first r h.mem h.parent h.name)
  have hmem : (r'.1, r.2) ∈ db.musicDirs.rows := hid ▸ h.mem
  exact Prod.ext hid (Placed.row_unique hmem h'.mem)

/-- A root that is as the disk has it stays so. -/
theorem initMusicDir_again (hstill : disk.Still) {v : Database × List Database} (hs : Sound v.1)
    (hn : Narrow v.1) (h : Mirrored disk dir v.1) : Rests v (initMusicDir disk dir) := by
  obtain ⟨r, hr, hreflects⟩ := h
  unfold initMusicDir
  refine Quiet.rests_bind (Queries.scan (.run (.createRoot dir))) (.ofRow r.1 r.2) ?_ ?_
  · rintro s d rfl ho
    have hfound : outcome (MusicDir.createRoot dir) s.world = .ok d := ok_of_run (ok_of_scan ho)
    rcases createRoot_first hfound with ⟨row, hroot, hself⟩ | ⟨-, hnone⟩
    · obtain rfl := hr.unique hroot
      exact hself
    · exact absurd hr.name (hnone r hr.mem hr.parent)
  · have hpl : Placed v.1.musicDirs r.1 [r.2.name.val] := by
      obtain ⟨x, parentId, name⟩ := r
      obtain rfl : parentId = 0 := hr.parent
      exact .root hr.mem
    exact syncFrom_again hstill 255 _ _ v hs hn ⟨r.2, hr.mem, rfl⟩ hpl hreflects

theorem rescan_again (hstill : disk.Still) {v : Database × List Database} (hs : Sound v.1)
    (hn : Narrow v.1) {dirs : List Bytes} (h : ∀ dir ∈ dirs, Mirrored disk dir v.1) :
    Rests v (rescan disk dirs) := by
  unfold rescan
  induction dirs with
  | nil => exact Triple.pure (Q := fun _ s => tables s = v) ()
  | cons dir dirs ih =>
    obtain ⟨hdir, hdirs⟩ := List.forall_mem_cons.mp h
    exact (initMusicDir_again hstill hs hn hdir).bind fun _ => ih hdirs

theorem rescan_mirrors (hstill : disk.Still) (hs : Sound s.db) (hn : Narrow s.db)
    {dirs : List Bytes} (hdirs : ∀ dir ∈ dirs, coerce dir = dir)
    (ho : outcome (rescan disk dirs) s = .ok ()) (hw : ¬ Wide (after (rescan disk dirs) s)) :
    (∀ dir ∈ dirs, Mirrored disk dir (after (rescan disk dirs) s).db) ∧ ∀ dir',
      Mirrored disk dir' s.db → Mirrored disk dir' (after (rescan disk dirs) s).db := by
  induction dirs generalizing s with
  | nil => exact ⟨fun _ hdir => absurd hdir List.not_mem_nil, fun _ h => h⟩
  | cons dir dirs ih =>
    obtain ⟨hdir, hdirs⟩ := List.forall_mem_cons.mp hdirs
    obtain ⟨_, hone, hw₁, hrest, hafter⟩ :=
      bind_narrow (fun _ => Keeps.forM dirs (initMusicDir_watched disk)) ho hw
    obtain ⟨hmirrored, hkept⟩ := initMusicDir_mirrors hstill hs hn hdir hone hw₁
    have hs₁ := (initMusicDir_kept hs disk dir).sound
    have hn₁ := ((initMusicDir_watched disk dir s).narrow hn).resolve_left hw₁
    obtain ⟨hall, hkept'⟩ := ih hs₁ hn₁ hdirs hrest (hafter ▸ hw)
    have hafter' : after (rescan disk (dir :: dirs)) s =
        after (rescan disk dirs) (after (initMusicDir disk dir) s) := hafter
    rw [hafter']
    exact ⟨List.forall_mem_cons.mpr ⟨hkept' dir hmirrored, hall⟩,
      fun dir' h => hkept' dir' (hkept dir' h)⟩

/-- A rescan of a disk that stays as it is leaves, if it comes to its end, below each root that the
disk has what it has there; another one, from a world with these tables, then changes nothing. -/
theorem rescan_reflects (hstill : disk.Still) (hs : Sound s.db) (hn : Narrow s.db)
    {dirs : List Bytes} (hdirs : ∀ dir ∈ dirs, coerce dir = dir)
    (ho : outcome (rescan disk dirs) s = .ok ())
    (hpassed : ∀ db ∈ (after (rescan disk dirs) s).passed, Narrow db) :
    (∀ dir ∈ dirs, Mirrored disk dir (after (rescan disk dirs) s).db) ∧
      ∀ s', tables s' = tables (after (rescan disk dirs) s) →
        tables (after (rescan disk dirs) s') = tables s' := by
  have hw : ¬ Wide (after (rescan disk dirs) s) := fun ⟨db, hdb, hwide⟩ => hwide (hpassed db hdb)
  have hmirrored := (rescan_mirrors hstill hs hn hdirs ho hw).1
  refine ⟨hmirrored, fun s' hs' => ?_⟩
  have hs₁ : Sound (tables (after (rescan disk dirs) s)).1 := (rescan_kept hs disk dirs).sound
  have hn₁ : Narrow (tables (after (rescan disk dirs) s)).1 :=
    ((watched_scans.rescan disk dirs s).narrow hn).resolve_left hw
  exact ((rescan_again hstill hs₁ hn₁ hmirrored).after_of hs').trans hs'.symm

end

theorem recordDisk_still : recordDisk.Still where
  status _ _ := rfl
  leaves _ _ := rfl
  distinct path := by
    change (if path = [lit "/music"] then ([lit "a.mp3"], false) else ([], false)).1.Nodup
    split
    · exact List.nodup_singleton _
    · exact List.nodup_nil
  stored path leaf hleaf := by
    change leaf ∈ (if path = [lit "/music"] then ([lit "a.mp3"], false) else ([], false)).1 at hleaf
    split at hleaf
    · obtain rfl := List.mem_singleton.mp hleaf
      exact coerce_alpha 97 _ rfl
    · cases hleaf

theorem rootWithSong_narrow : Narrow rootWithSong := by
  intro r hr
  obtain rfl := List.mem_singleton.mp hr
  exact ⟨by simp, by simp⟩

/-- The world of `rootWithSong` after so many readings. -/
def recordRead (n : Nat) : Logged := .start { World.start rootWithSong with readings := n }

/-- The row of the root. -/
def recordRoot : DirRow := ⟨0, .ofLiteral (lit "/music") nulFree_music⟩

theorem recordRoot_path (h : coerce (lit "/music") = lit "/music") (n : Nat) :
    Returns (MusicDir.ofRow 1 recordRoot).path.scan (recordRead n) [lit "/music"] (recordRead n) := by
  have hmem : (1, recordRoot) ∈ rootWithSong.musicDirs.rows := List.mem_singleton.mpr rfl
  have hpl : Placed rootWithSong.musicDirs 1 [recordRoot.name.val] := .root hmem
  rw [show recordRoot.name.val = lit "/music" from h] at hpl
  exact Run.scan_returns (path_returns rfl rootWithSong_narrow hpl hmem)

theorem recordSong_listed (n : Nat) :
    MusicDir.songList (recordRead n).db 1 = [Song.ofRow recordSong.1 recordSong.2] := by
  rw [show MusicDir.songList (recordRead n).db 1 =
    (orderByTrack [recordSong]).map fun r => Song.ofRow r.1 r.2 from rfl]
  simp [orderByTrack, orderByUpper]

/-- The song is met. -/
theorem record_visited (sync : MusicDir → Scan Unit) (n : Nat) :
    Returns ((MusicDir.ofRow 1 recordRoot).visit recordDisk (Song.createFromFile recordDisk) sync
      [lit "/music"] ⟨[], [Song.ofRow recordSong.1 recordSong.2]⟩ (lit "a.mp3")) (recordRead n)
        ⟨[], []⟩ (recordRead (n + 1)) := by
  have hdir : Returns (recordDisk.isDirectory [lit "/music", lit "a.mp3"]) (recordRead n) false
    (recordRead (n + 1)) := ⟨rfl, rfl⟩
  refine hdir.bind ?_
  have hname : (Song.ofRow recordSong.1 recordSong.2).fileName = lit "a.mp3" := recordSong_fileName
  have hinteresting : Song.isInteresting (lit "a.mp3") = true := by decide
  rw [if_neg (by decide), MusicDir.visitFile, if_pos hinteresting, if_pos (by simp [hname])]
  rw [List.eraseP_cons_of_pos (by simp [hname])]
  exact .pure _ _

/-- The rescan comes to its end. -/
theorem record_rescanned (h : coerce (lit "/music") = lit "/music") :
    Returns (rescan recordDisk [lit "/music"]) (recordRead 0) () (recordRead 3) := by
  have hpath := recordRoot_path h
  have hread : ∀ n, Returns (recordDisk.existsAt [lit "/music"]) (recordRead n) true
    (recordRead (n + 1)) := fun n => ⟨rfl, rfl⟩
  have hlist : ∀ n, Returns (recordDisk.list [lit "/music"]) (recordRead n) ([lit "a.mp3"], false)
    (recordRead (n + 1)) := fun n => ⟨rfl, rfl⟩
  have hroot : Returns (MusicDir.createRoot (lit "/music")).run.scan (recordRead 0)
      (.ofRow 1 recordRoot) (recordRead 0) := by
    have hfound : Returns (MusicDir.createRoot (lit "/music")) (recordRead 0).world
        (.ofRow 1 recordRoot) (recordRead 0).world := by
      have hrows : ((recordRead 0).world.db.musicDirs.select fun _ d =>
          d.parentId == 0 && d.name.eqLiteral (lit "/music")) = [(1, recordRoot)] :=
        List.filter_cons_of_pos (by simp [Text.eqLiteral, Text.ofLiteral])
      unfold MusicDir.createRoot
      rw [nulFree_music]
      refine (listRows_returns rfl _).bind ?_
      rw [hrows]
      exact .pure _ _
    refine Run.scan_returns ⟨?_, ?_⟩
    · rw [outcome_run, hfound.outcome]
      rfl
    · rw [after_run, hfound.after]
  have hchildren : Returns (MusicDir.ofRow 1 recordRoot).children.run.scan (recordRead 1) []
    (recordRead 1) := by
    have hnone : MusicDir.childList (recordRead 1).db 1 = [] := List.mergeSort_nil
    exact hnone ▸ MusicDir.children_returns rfl _
  have hsongs : Returns (MusicDir.ofRow 1 recordRoot).songs.run.scan (recordRead 1)
      [Song.ofRow recordSong.1 recordSong.2] (recordRead 1) :=
    recordSong_listed 1 ▸ MusicDir.songs_returns rfl _
  have hsync : Returns ((MusicDir.ofRow 1 recordRoot).sync recordDisk) (recordRead 0) ()
      (recordRead 3) := by
    refine (hpath 0).bind (Returns.bind (.pure _ _) ?_)
    refine (hpath 0).bind ((hread 0).bind ?_)
    refine hchildren.bind (hsongs.bind ((hpath 1).bind ((hlist 1).bind ?_)))
    refine Returns.bind ((record_visited _ 2).bind (.pure _ _)) ?_
    exact ⟨rfl, rfl⟩
  exact (hroot.bind hsync).bind (.pure _ _)

omit [Affinity] in
/-- The root with its song is what the disk has. -/
theorem record_mirrored : ∃ _ : Affinity,
    (∀ dir ∈ [lit "/music"],
      Mirrored recordDisk dir (after (rescan recordDisk [lit "/music"]) (recordRead 0)).db) ∧
    ∀ s', tables s' = tables (after (rescan recordDisk [lit "/music"]) (recordRead 0)) →
      tables (after (rescan recordDisk [lit "/music"]) s') = tables s' := by
  let _ := integerAffinity
  have hstored : coerce (lit "/music") = lit "/music" := by decide
  have hrun := record_rescanned hstored
  refine ⟨integerAffinity, rescan_reflects (s := recordRead 0) recordDisk_still rootWithSong_sound
    rootWithSong_narrow (fun dir hdir => ?_) hrun.outcome fun db hdb => ?_⟩
  · obtain rfl := List.mem_singleton.mp hdir
    exact hstored
  · rw [hrun.after] at hdb
    cases hdb

end Spinny

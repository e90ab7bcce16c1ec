import Spinny.Lib.Lists
import Spinny.Survivors

/-!
# `sync` against what the disk shows

The loop of `sync` takes a directory and a song off its two lists when it meets the leaf that
stands for them, and deletes what is left on the lists when it comes to its end. What the disk
shows is met before that.

* `Ahead`: what of the lists is still to be met, and which leaves it will be met with.
* `visit_midway`: a turn of the loop; `syncFrom_tidies` goes down the levels.
* `rescan_survives`: a rescan.
-/

namespace Spinny

open Bytes Sqlite Proc

variable [Affinity]

/-! ## Paths -/

section

variable {disk : Disk} {s : Logged}

theorem ok_of_scan {α : Type} {x : Run α} {a : α} (h : outcome x.scan s = .ok a) :
    outcome x s.world = .ok a := by
  rw [Run.scan, outcome_focus] at h
  cases hx : outcome x s.world with
  | ok b =>
    rw [hx] at h
    exact congrArg _ (Except.ok.inj h)
  | error e =>
    rw [hx] at h
    cases h

/-- Where `path` comes to an end for a directory that is shown, it is the path. -/
theorem shown_pathFrom {w : World} (hpos : ∀ r ∈ w.db.musicDirs.rows, 0 < r.1)
    {q : Int × DirRow} {names : List Bytes} (hq : Shown disk w.db.musicDirs q names) {fuel : Nat}
    {below l : List Bytes} (h : outcome (MusicDir.pathFrom fuel (.ofRow q.1 q.2) below) w = .ok l) :
    l = names ++ below := by
  induction hq generalizing fuel below with
  | root hr =>
    unfold MusicDir.pathFrom at h
    rw [if_pos (show MusicDir.isRoot (.ofRow _ _) = true from rfl)] at h
    exact (Except.ok.inj h).symm
  | @child r q names hr hp hq hnarrow _ _ ih =>
    have hparent : (MusicDir.ofRow r.1 r.2).parentId = q.1 := by
      rw [MusicDir.ofRow, hp, hnarrow]
    have hroot : (MusicDir.ofRow r.1 r.2).isRoot = false := by
      rw [MusicDir.isRoot, hparent]
      exact beq_eq_false_iff_ne.mpr (hpos _ hq.mem).ne'
    unfold MusicDir.pathFrom at h
    rw [if_neg (by simp [hroot])] at h
    cases fuel with
    | zero => cases h
    | succ fuel =>
      obtain ⟨d, hd, h⟩ := bind_eq_ok.mp h
      have hload : outcome (MusicDir.ofRow r.1 r.2).parent w = .ok d := ok_of_run hd
      rw [MusicDir.parent, hparent, MusicDir.load, loadRow, outcome_loadOne] at hload
      split at hload
      · cases hload
      · rw [Table.lookup_eq_some.mpr hq.mem] at hload
        obtain rfl := Except.ok.inj hload
        have hw : after (liftM (MusicDir.ofRow r.1 r.2).parent : Run MusicDir) w = w := by
          rw [liftM_act, after_run, MusicDir.parent, MusicDir.load, loadRow, after_loadOne]
          cases w
          simp
        rw [hw] at h
        rw [ih h, List.append_assoc]
        rfl

/-- The object stands for its row, or for a new row that no other names. -/
def MusicDir.Stands (d : MusicDir) (db : Database) : Prop :=
  ∃ row, (d.dbId, row) ∈ db.musicDirs.rows ∧ (d = .ofRow d.dbId row ∨ d.Unnamed db)

/-- The disk shows at the path what is shown in the directory `p`. -/
structure Views (disk : Disk) (db : Database) (p : Int) (path : List Bytes) : Prop where
  dirs : ∀ r names, Shown disk db.musicDirs r names → r.2.parentId = p →
    First db.musicDirs r ∧ disk.ShowsDir path r.2.name.val
  files : ∀ r, Met disk db r → r.2.dirId = p → disk.ShowsFile path r.2.fileName.val

theorem MusicDir.Stands.views {d : MusicDir} (hd : d.Stands s.db) (hs : Sound s.db)
    {path : List Bytes} (hpath : outcome d.path.scan s = .ok path) :
    Views disk s.db d.dbId path := by
  obtain ⟨row, hrow, hobject⟩ := hd
  have hne : d.dbId ≠ 0 := (hs.dirs _ hrow).ne'
  -- with a row of its own the object is that of the row, so its path is the one that is shown
  have hsame : ∀ q names, Shown disk s.db.musicDirs q names → q.1 = d.dbId →
      (∃ r ∈ s.db.musicDirs.rows, r.2.parentId = d.dbId) ∨
        (∃ r ∈ s.db.songs.rows, r.2.dirId = d.dbId) → path = names := by
    intro q names hq hid hnamed
    rcases hobject with hobject | ⟨hdirs, hsongs⟩
    · have hqrow : q = (d.dbId, row) := by
        have hmem := hq.mem
        rw [show q = (q.1, q.2) from rfl, hid] at hmem
        rw [show q = (q.1, q.2) from rfl, hid, Placed.row_unique hmem hrow]
      have hwalk := ok_of_scan hpath
      rw [outcome_path] at hwalk
      have hend := shown_pathFrom (w := s.world) hs.dirs hq (by rwa [hqrow, ← hobject])
      rw [hend, List.append_nil]
    · rcases hnamed with ⟨r, hr, hp⟩ | ⟨r, hr, hp⟩
      · exact absurd hp (hdirs r hr)
      · exact absurd hp (hsongs r hr)
  constructor
  · intro r names hr hp
    obtain ⟨q, names', hid, hq, hfirst, hdir⟩ := hr.parent (hp ▸ hne)
    rw [hsame q names' hq (hid.trans hp) (.inl ⟨r, hr.mem, hp⟩)]
    exact ⟨hfirst, hdir⟩
  · intro r hr hp
    obtain ⟨q, names, hq, hid, hfile⟩ := hr.shown
    rw [hsame q names hq (hid.trans hp) (.inr ⟨r, hr.mem, hp⟩)]
    exact hfile

end

/-! ## The lists of the loop -/

/-- The directories that were not met stand for their rows. -/
def Unmet.Listed (left : Unmet) (p : Int) (db : Database) : Prop :=
  ∀ c ∈ left.dirs, ∃ row, (c.dbId, row) ∈ db.musicDirs.rows ∧ row.parentId = p ∧
    c = .ofRow c.dbId row

/-- What is shown in the directory `p` of `db` is off the lists, or it will be met: its leaf is to
come, or the listing throws at its end. -/
structure Ahead (disk : Disk) (db : Database) (p : Int) (fails : Bool) (rest : List Bytes)
    (left : Unmet) : Prop where
  dirs : ∀ r names, Shown disk db.musicDirs r names → r.2.parentId = p →
    (∀ c ∈ left.dirs, c.dbId ≠ r.1) ∨
      (fails = true ∨ r.2.name.val ∈ rest) ∧
        ∃ c, left.dirs.find? (fun c => c.name == r.2.name.val) = some c ∧ c.dbId = r.1
  songs : ∀ r, Met disk db r → r.2.dirId = p →
    (∀ s ∈ left.songs, s.dbId ≠ r.1) ∧ namesakes r.2.fileName.val rest = [] ∨
      (namesakes r.2.fileName.val rest = [r.2.fileName.val] ∨
        fails = true ∧ namesakes r.2.fileName.val rest = []) ∧
        ∃ s, left.songs.find? (fun s => s.fileName == r.2.fileName.val) = some s ∧ s.dbId = r.1
  dirIds : (left.dirs.map MusicDir.dbId).Nodup
  songIds : (left.songs.map Song.dbId).Nodup
  own : ∀ s ∈ left.songs, ∃ row, (s.dbId, row) ∈ db.songs.rows ∧ row.dirId = p

theorem namesakes_cons_of_ne {name leaf : Bytes} {rest : List Bytes} (h : coerce leaf ≠ name) :
    namesakes name (leaf :: rest) = namesakes name rest :=
  List.filter_cons_of_neg (by simpa using h)

theorem namesakes_cons_of_eq {name leaf : Bytes} {rest : List Bytes} (h : coerce leaf = name) :
    namesakes name (leaf :: rest) = leaf :: namesakes name rest :=
  List.filter_cons_of_pos (by simpa using h)

namespace Ahead

variable {disk : Disk} {db : Database} {p : Int} {fails : Bool} {rest : List Bytes} {left : Unmet}
  {leaf : Bytes}

/-- A leaf that is stored under the name of a file that is shown is that file, and its song is still
on the list. -/
theorem leaf_eq (h : Ahead disk db p fails (leaf :: rest) left) {r : Int × SongRow}
    (hr : Met disk db r) (hp : r.2.dirId = p) (hleaf : coerce leaf = r.2.fileName.val) :
    leaf = r.2.fileName.val ∧ namesakes r.2.fileName.val rest = [] ∧
      ∃ s, left.songs.find? (fun s => s.fileName == r.2.fileName.val) = some s ∧ s.dbId = r.1 := by
  have hsongs := h.songs r hr hp
  rw [namesakes_cons_of_eq hleaf] at hsongs
  rcases hsongs with ⟨-, hnone⟩ | ⟨hone | ⟨-, hnone⟩, hfind⟩
  · cases hnone
  · obtain ⟨heq, hrest⟩ := List.cons.inj hone
    exact ⟨heq, hrest, hfind⟩
  · cases hnone

/-- A leaf that stands for nothing that is shown. -/
theorem pass (h : Ahead disk db p fails (leaf :: rest) left)
    (hdirs : ∀ r names, Shown disk db.musicDirs r names → r.2.parentId = p →
      r.2.name.val = leaf → ∀ c ∈ left.dirs, c.dbId ≠ r.1)
    (hsongs : ∀ r, Met disk db r → r.2.dirId = p → coerce leaf ≠ r.2.fileName.val) :
    Ahead disk db p fails rest left where
  dirs r names hr hp := by
    by_cases hname : r.2.name.val = leaf
    · exact .inl (hdirs r names hr hp hname)
    · refine (h.dirs r names hr hp).imp_right fun ⟨hcome, hfind⟩ => ⟨hcome.imp_right ?_, hfind⟩
      exact fun hmem => (List.mem_cons.mp hmem).resolve_left hname
  songs r hr hp := by
    have := h.songs r hr hp
    rwa [namesakes_cons_of_ne (hsongs r hr hp)] at this
  dirIds := h.dirIds
  songIds := h.songIds
  own := h.own

/-- A directory is met. -/
theorem meetDir (h : Ahead disk db p fails (leaf :: rest) left) {child : MusicDir}
    (hfind : left.dirs.find? (fun c => c.name == leaf) = some child)
    (hsongs : ∀ r, Met disk db r → r.2.dirId = p → coerce leaf ≠ r.2.fileName.val) :
    Ahead disk db p fails rest { left with dirs := left.dirs.eraseP fun c => c.name == leaf } where
  dirs r names hr hp := by
    rcases h.dirs r names hr hp with hoff | ⟨hcome, c, hc, hid⟩
    · exact .inl fun c hc => hoff c (List.mem_of_mem_eraseP hc)
    · by_cases hname : r.2.name.val = leaf
      · rw [hname, hfind] at hc
        obtain rfl := Option.some.inj hc
        exact .inl fun b hb => hid ▸ Lists.ne_of_mem_eraseP h.dirIds hfind hb
      · refine .inr ⟨hcome.imp_right fun hmem => (List.mem_cons.mp hmem).resolve_left hname, c, ?_,
          hid⟩
        rw [Lists.find?_eraseP fun a ha => ?_]
        · exact hc
        · rw [beq_iff_eq] at ha
          rw [ha]
          exact beq_eq_false_iff_ne.mpr (Ne.symm hname)
  songs r hr hp := by
    have := h.songs r hr hp
    rwa [namesakes_cons_of_ne (hsongs r hr hp)] at this
  dirIds := h.dirIds.sublist (List.eraseP_sublist.map _)
  songIds := h.songIds
  own := h.own

/-- A song is met. -/
theorem meetSong (h : Ahead disk db p fails (leaf :: rest) left)
    (hdirs : ∀ r names, Shown disk db.musicDirs r names → r.2.parentId = p → r.2.name.val ≠ leaf) :
    Ahead disk db p fails rest
      { left with songs := left.songs.eraseP fun s => s.fileName == leaf } where
  dirs r names hr hp := by
    refine (h.dirs r names hr hp).imp_right fun ⟨hcome, hfind⟩ => ⟨hcome.imp_right ?_, hfind⟩
    exact fun hmem => (List.mem_cons.mp hmem).resolve_left (hdirs r names hr hp)
  songs r hr hp := by
    by_cases hleaf : coerce leaf = r.2.fileName.val
    · obtain ⟨heq, hnone, s, hfind, hid⟩ := h.leaf_eq hr hp hleaf
      rw [← heq] at hfind
      exact .inl ⟨fun b hb => hid ▸ Lists.ne_of_mem_eraseP h.songIds hfind hb, hnone⟩
    · have hname : leaf ≠ r.2.fileName.val := by
        rintro rfl
        exact hleaf (coerce_of_interesting hr.interesting)
      have hsongs := h.songs r hr hp
      rw [namesakes_cons_of_ne hleaf] at hsongs
      rcases hsongs with ⟨hoff, hnone⟩ | ⟨hcome, s, hs, hid⟩
      · exact .inl ⟨fun b hb => hoff b (List.mem_of_mem_eraseP hb), hnone⟩
      · refine .inr ⟨hcome, s, ?_, hid⟩
        rw [Lists.find?_eraseP fun a ha => ?_]
        · exact hs
        · rw [beq_iff_eq] at ha
          rw [ha]
          exact beq_eq_false_iff_ne.mpr hname
  dirIds := h.dirIds
  songIds := h.songIds.sublist (List.eraseP_sublist.map _)
  own s hs := h.own s (List.mem_of_mem_eraseP hs)

end Ahead

/-! ## The start of the loop -/

section

variable {disk : Disk} {db : Database} {p : Int}

omit [Affinity] in
theorem orderByUpper_nodup {α : Type} {key : α → Bytes} {id : α → Int} {rows : List α}
    (h : (rows.map id).Nodup) : ((orderByUpper key rows).map id).Nodup :=
  ((List.mergeSort_perm _ _).map id).nodup_iff.mpr h

theorem childList_nodup (db : Database) (p : Int) :
    ((MusicDir.childList db p).map MusicDir.dbId).Nodup := by
  refine orderByUpper_nodup ?_
  rw [List.map_map]
  exact db.musicDirs.nodup_rowids.sublist (List.filter_sublist.map _)

theorem songList_nodup (db : Database) (p : Int) :
    ((MusicDir.songList db p).map Song.dbId).Nodup := by
  rw [MusicDir.songList, List.map_map]
  refine ((List.mergeSort_perm _ _).map _).nodup_iff.mpr (orderByUpper_nodup ?_)
  exact db.songs.nodup_rowids.sublist (List.filter_sublist.map _)

/-- The first row of a name is found first on the list of the children, where rows of one name stay
in their order. -/
theorem find_childList {r : Int × DirRow} (hr : r ∈ db.musicDirs.rows) (hp : r.2.parentId = p)
    (hfirst : First db.musicDirs r) :
    (MusicDir.childList db p).find? (fun c => c.name == r.2.name.val) =
      some (MusicDir.ofRow r.1 r.2) := by
  rw [MusicDir.childList, orderByUpper, Lists.find?_mergeSort, List.find?_map]
  · obtain ⟨before, rest, hrows⟩ := List.append_of_mem hr
    have hsorted := db.musicDirs.sorted
    rw [hrows, List.pairwise_append] at hsorted
    rw [Table.select, hrows, List.filter_append, List.filter_cons_of_pos (by simpa using hp),
      List.find?_append, List.find?_cons_of_pos (by simp [MusicDir.ofRow])]
    rw [List.find?_eq_none.mpr]
    · rfl
    · intro q hq hname
      obtain ⟨hq, hqp⟩ := List.mem_filter.mp hq
      have hlt := hsorted.2.2 q hq r List.mem_cons_self
      have hval : q.2.name.val = r.2.name.val := by simpa [MusicDir.ofRow] using hname
      have hparent : q.2.parentId = r.2.parentId := by simpa [hp] using hqp
      exact absurd (hfirst q (hrows ▸ List.mem_append_left _ hq) hparent hval) (by omega)
  · intro a b c hab hbc
    simp only [decide_eq_true_eq] at hab hbc ⊢
    exact List.le_trans hab hbc
  · intro a b
    simpa using List.le_total (toUpperCopy a.name) (toUpperCopy b.name)
  · intro a b ha hb
    rw [beq_iff_eq] at ha hb
    simp [ha, hb]
  · refine List.Nodup.of_map MusicDir.dbId ?_
    rw [List.map_map]
    exact db.musicDirs.nodup_rowids.sublist (List.filter_sublist.map _)

/-- The only song of a file name is found on the list of the songs. -/
theorem find_songList {r : Int × SongRow} (hr : Met disk db r) (hp : r.2.dirId = p) :
    ∃ s, (MusicDir.songList db p).find? (fun s => s.fileName == r.2.fileName.val) = some s ∧
      s.dbId = r.1 := by
  cases hfind : (MusicDir.songList db p).find? (fun s => s.fileName == r.2.fileName.val) with
  | none =>
    have hself : Song.ofRow r.1 r.2 ∈ MusicDir.songList db p :=
      MusicDir.mem_songList.mpr ⟨r.2, hr.mem, hp, rfl⟩
    exact absurd (by simp [Song.ofRow]) (List.find?_eq_none.mp hfind _ hself)
  | some s =>
    refine ⟨s, rfl, ?_⟩
    obtain ⟨row, hrow, hdir, hs⟩ := MusicDir.mem_songList.mp (List.mem_of_find?_eq_some hfind)
    have hname := List.find?_some hfind
    rw [hs, beq_iff_eq] at hname
    exact hr.single _ hrow (hdir.trans hp.symm) hname

/-- At the start all that is shown in the directory is on the lists, and its leaves are to come. -/
theorem Ahead.start {path : List Bytes} (h : Views disk db p path) (n : Nat) :
    Ahead disk db p (disk.leaves n path).2 (disk.leaves n path).1
      ⟨MusicDir.childList db p, MusicDir.songList db p⟩ where
  dirs r names hr hp := by
    obtain ⟨hfirst, hdir⟩ := h.dirs r names hr hp
    exact .inr ⟨hdir.listed n, _, find_childList hr.mem hp hfirst, rfl⟩
  songs r hr hp := .inr ⟨(h.files r hr hp).listed n, find_songList hr hp⟩
  dirIds := childList_nodup db p
  songIds := songList_nodup db p
  own s hs := by
    obtain ⟨row, hrow, hdir, -⟩ := MusicDir.mem_songList.mp hs
    exact ⟨row, hrow, hdir⟩

theorem childList_listed (songs : List Song) :
    (Unmet.mk (MusicDir.childList db p) songs).Listed p db := by
  intro c hc
  exact MusicDir.mem_childList.mp hc

end

/-! ## The loop -/

section

variable {disk : Disk} {roots : List Bytes} {create : MusicDir → Bytes → Scan Song}
  {sync : MusicDir → Scan Unit} {d : MusicDir} {v : Database × List Database} {s : Logged}
  {fails : Bool} {rest : List Bytes} {left : Unmet} {leaf : Bytes}

/-- What is done to a directory leaves what a scan leaves. -/
def TidiesSync (disk : Disk) (roots : List Bytes) (sync : MusicDir → Scan Unit) : Prop :=
  ∀ d s, d.Stands s.db → Scanned roots d.dbId (tables s) →
    Tidies disk roots d.dbId (tables s) (tables (after (sync d) s))

/-- What is done with a leaf that is not stored under the name of a song that is met. -/
def TidiesSongs (disk : Disk) (roots : List Bytes) (create : MusicDir → Bytes → Scan Song) : Prop :=
  ∀ d leaf s p v, Scanned roots p v → Tidies disk roots p v (tables s) → HasDir d.dbId s.db →
    (∀ r, Met disk v.1 r → r.2.dirId = d.dbId → r.2.fileName.val ≠ coerce leaf) →
      Tidies disk roots p v (tables (after (create d leaf) s))

theorem createFromFile_tidies (disk : Disk) (roots : List Bytes) :
    TidiesSongs disk roots (Song.createFromFile disk) := by
  intro d leaf s p v hv h hd hname
  have hall : ∀ s' : Logged, tables s' = tables s →
      Tidies disk roots p v (tables s') ∧ HasDir d.dbId s'.db := by
    intro s' hs'
    rw [hs', show s'.db = s.db from congrArg Prod.fst hs']
    exact ⟨h, hd⟩
  unfold Song.createFromFile
  rw [saveIfNeeded_saved h.tended.sound hd, pure_bind]
  refine (Queries.scan (.path d)).bind_of (P := Tidies disk roots p v) h fun path s₁ _ h₁ => ?_
  refine Quiet.bind_of (P := Tidies disk roots p v) (keeps_existsAt quiet_reading disk _)
    (hall _ h₁).1 fun found s₂ _ h₂ => ?_
  have h₂ := h₂.trans h₁
  split
  · exact (hall _ h₂).1
  · refine Quiet.bind_of (P := Tidies disk roots p v) (keeps_readTag quiet_reading disk _)
      (hall _ h₂).1 fun tag s₃ _ h₃ => ?_
    have h₃ := h₃.trans h₂
    refine (Queries.scan (.run (.findOrCreate _ _))).bind_of (P := Tidies disk roots p v)
      (hall _ h₃).1 fun artist s₄ _ h₄ => ?_
    refine (Queries.scan (.run (.findOrCreate _ _))).bind_of (P := Tidies disk roots p v)
      (hall _ (h₄.trans h₃)).1 fun album s₅ _ h₅ => ?_
    obtain ⟨htidies, hdir⟩ := hall _ (h₅.trans (h₄.trans h₃))
    exact htidies.saveSong hv hdir hname

/-- The loop over the entries of the directory `p` has come so far. -/
structure Midway (disk : Disk) (roots : List Bytes) (p : Int) (v : Database × List Database)
    (fails : Bool) (rest : List Bytes) (left : Unmet) (s : Logged) : Prop where
  tidies : Tidies disk roots p v (tables s)
  listed : left.Listed p s.db
  ahead : Ahead disk v.1 p fails rest left

/-- The list of a loop whose rows stay. -/
theorem Unmet.Listed.kept (hs : Sound s.db) {s' : Logged} {p : Int} (h : left.Listed p s.db)
    (ht : ∀ c, Tended c (tables s) (tables s')) : left.Listed p s'.db := by
  intro c hc
  obtain ⟨row, hr, hp, hself⟩ := h c hc
  exact ⟨row, (ht c.dbId).spared _ hr (hs.linked.dirs.not_below_self _), hp, hself⟩

/-- `sync` of a child. -/
theorem Midway.child (hsync : TidiesSync disk roots sync) (hv : Scanned roots d.dbId v)
    (h : Midway disk roots d.dbId v fails rest left s) {child : MusicDir}
    (hstands : child.Stands s.db) (hchild : IsChild s.db.musicDirs child.dbId d.dbId) :
    Midway disk roots d.dbId v fails rest left (after (sync child) s) := by
  have hs : Sound s.db := h.tidies.tended.sound
  have hunder : Under roots s.db.musicDirs child.dbId :=
    (h.tidies.tended.under hv.sound hv.under).child hv.ne_zero hchild
  have hrow : HasDir child.dbId s.db := by
    obtain ⟨row, hr, -⟩ := hchild
    exact ⟨row, hr⟩
  have htidies := hsync child s hstands ⟨hs, hrow, hunder⟩
  refine ⟨⟨h.tidies.tended.trans hv.sound (htidies.tended.of_child hchild),
    h.tidies.spares.trans htidies.spares⟩, fun c hc => ?_, h.ahead⟩
  obtain ⟨row, hr, hp, hself⟩ := h.listed c hc
  exact ⟨row, htidies.tended.spared _ hr (hs.linked.dirs.not_below_sibling hchild ⟨row, hr, hp⟩),
    hp, hself⟩

/-- `save` of a new directory that returns. -/
theorem saveDir_ok {d' : MusicDir} (ho : outcome d.saveNew s = .ok d') : ∃ row,
    d.toRow = some row ∧ d'.dbId = s.db.musicDirs.nextId ∧
      tables (after d.saveNew s) = changedTo (s.db.mapDirs fun t => t.insert row) s := by
  unfold MusicDir.saveNew at ho ⊢
  rw [outcome_bind_ok (outcome_get s), after_get] at ho
  rw [after_bind_ok (outcome_get s), after_get]
  rcases change_tables d.toRow.isSome _ s with ⟨hchange, hacc, ht⟩ | ⟨⟨e, hchange⟩, -⟩
  · obtain ⟨row, hrow⟩ := Option.isSome_iff_exists.mp hacc
    rw [outcome_bind_ok hchange] at ho
    rw [after_bind_ok hchange, after_pure, ht]
    refine ⟨row, hrow, ?_, ?_⟩
    · rw [← Except.ok.inj ho]
    · simp only [hrow]
      rfl
  · rw [outcome_bind_error hchange] at ho
    cases ho

theorem parentId_toRow {row : DirRow} (h : d.toRow = some row) : row.parentId = d.parentId := by
  unfold MusicDir.toRow at h
  split at h
  · rw [← Option.some.inj h]
  · cases h

theorem name_toRow {row : DirRow} (h : d.toRow = some row) : row.name.cell = store d.name := by
  unfold MusicDir.toRow at h
  split at h
  · rw [← Option.some.inj h]
    rfl
  · cases h

/-- A new directory is named by no other row. -/
theorem saveDir_stands (hs : Sound s.db) (hd : d.parentId = 0 ∨ HasDir d.parentId s.db)
    {d' : MusicDir} (ho : outcome d.saveNew s = .ok d') : d'.Stands (after d.saveNew s).db := by
  obtain ⟨row, hrow, hid, ht⟩ := saveDir_ok ho
  have hdb : (after d.saveNew s).db = s.db.mapDirs fun t => t.insert row := congrArg Prod.fst ht
  have hpos := s.db.musicDirs.nextId_pos hs.dirs
  have hbefore : ∀ p, p = 0 ∨ HasDir p s.db → p ≠ d'.dbId := by
    rw [hid]
    rintro p (rfl | ⟨q, hq⟩)
    · exact hpos.ne
    · exact (s.db.musicDirs.lt_nextId _ hq).ne
  rw [hdb]
  refine ⟨row, hid ▸ Table.mem_rows_insert.mpr (.inr rfl), .inr ⟨fun r hr => ?_, fun r hr => ?_⟩⟩
  · rcases Table.mem_rows_insert.mp hr with hr | rfl
    · by_cases hp : r.2.parentId = 0
      · exact hbefore _ (.inl hp)
      · exact hbefore _ (.inr (hs.linked.dirs.parent ⟨r.2, hr, rfl⟩ hp))
    · exact hbefore _ ((parentId_toRow hrow).symm ▸ hd)
  · exact hbefore _ (.inr (hs.linked.songs r hr))

theorem visitDir_midway (hsync : TidiesSync disk roots sync) (hv : Scanned roots d.dbId v)
    (hsongs : ∀ r, Met disk v.1 r → r.2.dirId = d.dbId → coerce leaf ≠ r.2.fileName.val) :
    Triple (Midway disk roots d.dbId v fails (leaf :: rest) left) (d.visitDir sync left leaf)
      (Midway disk roots d.dbId v fails rest)
      fun _ s => Tidies disk roots d.dbId v (tables s) := by
  refine Triple.of_single fun s h => ?_
  have hs : Sound s.db := h.tidies.tended.sound
  unfold MusicDir.visitDir
  cases hfind : left.dirs.find? fun c => c.name == leaf with
  | some child =>
    obtain ⟨row, hr, hp, hself⟩ := h.listed child (List.mem_of_find?_eq_some hfind)
    have hnext := h.child hsync hv ⟨row, hr, .inl hself⟩ ⟨row, hr, hp⟩
    refine Triple.bind (Q := fun _ => Midway disk roots d.dbId v fails (leaf :: rest) left)
      ?_ fun _ s' hs' => ?_
    · refine (Triple.of_after (R := Midway disk roots d.dbId v fails (leaf :: rest) left) ?_).conseq
        (fun _ h => h) (fun _ _ h => h) fun _ _ h => h.tidies
      rintro _ rfl
      exact hnext
    · exact ⟨hs'.tidies, fun c hc => hs'.listed c (List.mem_of_mem_eraseP hc),
        hs'.ahead.meetDir hfind hsongs⟩
  | none =>
    have hahead : Ahead disk v.1 d.dbId fails rest left := by
      refine h.ahead.pass (fun r names hr hp hname => ?_) hsongs
      rcases h.ahead.dirs r names hr hp with hoff | ⟨-, c, hc, -⟩
      · exact hoff
      · rw [hname, hfind] at hc
        cases hc
    have hparent : (d.addChild leaf).parentId = 0 ∨ HasDir (d.addChild leaf).parentId s.db :=
      .inr (h.tidies.tended.hasDir hv.sound hv.row)
    have hsaved : Midway disk roots d.dbId v fails rest left (after (d.addChild leaf).saveNew s) :=
      ⟨h.tidies.saveDir hv hparent,
        h.listed.kept hs fun c => (saveDir_tended hs hparent).1, hahead⟩
    refine Triple.bind (Q := fun (child : MusicDir) s' =>
      Midway disk roots d.dbId v fails rest left s' ∧ child.Stands s'.db ∧
        IsChild s'.db.musicDirs child.dbId d.dbId) ?_ fun child => ?_
    · refine Triple.intro ?_ ?_
      · rintro _ child rfl ho
        exact ⟨hsaved, saveDir_stands hs hparent ho, (saveDir_tended (p := 0) hs hparent).2 child ho⟩
      · rintro _ _ rfl -
        exact hsaved.tidies
    · refine Triple.bind (Q := fun _ => Midway disk roots d.dbId v fails rest left) ?_
        fun _ => Triple.pure _
      refine (Triple.of_after (R := Midway disk roots d.dbId v fails rest left) ?_).conseq
        (fun _ h => h) (fun _ _ h => h) fun _ _ h => h.tidies
      exact fun s' hs' => hs'.1.child hsync hv hs'.2.1 hs'.2.2

theorem visitFile_midway (hcreate : TendsSongs create) (hsaves : TidiesSongs disk roots create)
    (hv : Scanned roots d.dbId v)
    (hdirs : ∀ r names, Shown disk v.1.musicDirs r names → r.2.parentId = d.dbId →
      r.2.name.val ≠ leaf) :
    Triple (Midway disk roots d.dbId v fails (leaf :: rest) left) (d.visitFile create left leaf)
      (Midway disk roots d.dbId v fails rest)
      fun _ s => Tidies disk roots d.dbId v (tables s) := by
  refine Triple.of_single fun s h => ?_
  have hs : Sound s.db := h.tidies.tended.sound
  have hoff : ∀ r names, Shown disk v.1.musicDirs r names → r.2.parentId = d.dbId →
      r.2.name.val = leaf → ∀ c ∈ left.dirs, c.dbId ≠ r.1 :=
    fun r names hr hp hname => absurd hname (hdirs r names hr hp)
  have hreturn : ∀ left' : Unmet, left'.dirs = left.dirs → Ahead disk v.1 d.dbId fails rest left' →
      Triple (· = s) (pure left' : Scan Unmet) (Midway disk roots d.dbId v fails rest)
        fun _ s => Tidies disk roots d.dbId v (tables s) := by
    rintro left' hsame hahead _ rfl
    refine ⟨h.tidies, ?_, hahead⟩
    rw [Unmet.Listed, hsame]
    exact h.listed
  unfold MusicDir.visitFile
  split
  · rename_i hinteresting
    split
    · exact hreturn _ rfl (h.ahead.meetSong hdirs)
    · rename_i hnew
      -- a leaf stored under the name of a song that is met would be on the list
      have hother : ∀ r, Met disk v.1 r → r.2.dirId = d.dbId → coerce leaf ≠ r.2.fileName.val := by
        intro r hr hp hname
        obtain ⟨hleaf, -, q, hq, -⟩ := h.ahead.leaf_eq hr hp hname
        refine hnew (List.any_eq_true.mpr ⟨q, List.mem_of_find?_eq_some hq, ?_⟩)
        have hsome := List.find?_some hq
        rwa [← hleaf] at hsome
      have hafter : Midway disk roots d.dbId v fails rest left
          (after (tryCatch (do let _ ← create d leaf) passFileErrors) s) := by
        have hd := h.tidies.tended.hasDir hv.sound hv.row
        have ht : tables (after (tryCatch (do let _ ← create d leaf) passFileErrors) s) = _ :=
          tables_recorded create d leaf s
        refine ⟨?_, h.listed.kept hs fun c => ?_, h.ahead.pass hoff hother⟩
        · rw [ht]
          exact hsaves d leaf s _ v hv h.tidies hd fun r hr hp => Ne.symm (hother r hr hp)
        · rw [ht]
          exact hcreate d leaf s c hs hd
      refine Triple.bind (Q := fun _ => Midway disk roots d.dbId v fails rest left) ?_
        fun _ => Triple.pure _
      refine (Triple.of_after (R := Midway disk roots d.dbId v fails rest left) ?_).conseq
        (fun _ h => h) (fun _ _ h => h) fun _ _ h => h.tidies
      rintro _ rfl
      exact hafter
  · rename_i hinteresting
    refine hreturn _ rfl (h.ahead.pass hoff fun r hr hp hname => hinteresting ?_)
    rw [(h.ahead.leaf_eq hr hp hname).1]
    exact hr.interesting

/-- What a path is seen as. -/
theorem isDirectory_ok {path : List Bytes} {isDir : Bool}
    (h : outcome (disk.isDirectory path) s = .ok isDir) :
    ∃ n, disk.status n path = if isDir then .directory else .file := by
  refine ⟨s.world.readings, ?_⟩
  unfold Disk.isDirectory at h
  rw [outcome_bind_ok (reading_returns s).outcome] at h
  split at h
  · rename_i hstatus
    rw [← Except.ok.inj h]
    exact hstatus
  · rename_i hstatus
    rw [← Except.ok.inj h]
    exact hstatus
  · cases h
  · cases h

theorem visit_midway (hcreate : TendsSongs create) (hsaves : TidiesSongs disk roots create)
    (hsync : TidiesSync disk roots sync) (hv : Scanned roots d.dbId v) {path : List Bytes}
    (hviews : Views disk v.1 d.dbId path) :
    Triple (Midway disk roots d.dbId v fails (leaf :: rest) left)
      (d.visit disk create sync path left leaf) (Midway disk roots d.dbId v fails rest)
      fun _ s => Tidies disk roots d.dbId v (tables s) := by
  unfold MusicDir.visit
  refine Triple.bind (Q := fun isDir s => Midway disk roots d.dbId v fails (leaf :: rest) left s ∧
    ∃ n, disk.status n (path ++ [leaf]) = if isDir then .directory else .file) ?_ fun isDir => ?_
  · have hquiet := keeps_isDirectory quiet_reading disk (path ++ [leaf])
    have hmid : ∀ s, Midway disk roots d.dbId v fails (leaf :: rest) left s →
        Midway disk roots d.dbId v fails (leaf :: rest) left
          (after (disk.isDirectory (path ++ [leaf])) s) := by
      intro s h
      have hdb : (after (disk.isDirectory (path ++ [leaf])) s).db = s.db :=
        congrArg Prod.fst (hquiet s)
      refine ⟨?_, by rw [hdb]; exact h.listed, h.ahead⟩
      rw [hquiet s]
      exact h.tidies
    exact Triple.intro (fun s _ h ho => ⟨hmid s h, isDirectory_ok ho⟩)
      fun s _ h _ => (hmid s h).tidies
  · refine Triple.of_single fun s ⟨h, n, hstatus⟩ => ?_
    split
    · rename_i hdir
      rw [if_pos hdir] at hstatus
      refine (visitDir_midway hsync hv fun r hr hp hname => ?_).conseq
        (fun s' hs' => hs' ▸ h) (fun _ _ h => h) fun _ _ h => h
      obtain ⟨hleaf, -⟩ := h.ahead.leaf_eq hr hp hname
      exact (hviews.files r hr hp).kind n (hleaf ▸ hstatus)
    · rename_i hdir
      rw [if_neg hdir] at hstatus
      refine (visitFile_midway hcreate hsaves hv fun r names hr hp hname => ?_).conseq
        (fun s' hs' => hs' ▸ h) (fun _ _ h => h) fun _ _ h => h
      exact (hviews.dirs r names hr hp).2.kind n (hname ▸ hstatus)

/-- What is on the lists at the end is deleted. -/
theorem deleteUnmet_tidies (hv : Scanned roots d.dbId v) {unmet : Unmet}
    (h : Midway disk roots d.dbId v false [] unmet s) :
    Tidies disk roots d.dbId v (tables (after (do
      unmet.dirs.forM MusicDir.destroy
      unmet.songs.forM Song.destroy) s)) := by
  -- nothing that is shown is on the lists
  have hdirs : ∀ c ∈ unmet.dirs, ∀ r names, Shown disk v.1.musicDirs r names → r.1 ≠ c.dbId := by
    intro c hc r names hr hid
    obtain ⟨row, hrow, hp, -⟩ := h.listed c hc
    have hmem := (h.tidies.spares.dirs r names hr).mem
    have hparent : r.2.parentId = d.dbId := by
      rw [← hp]
      rw [show r = (r.1, r.2) from rfl, hid] at hmem
      exact congrArg DirRow.parentId (Placed.row_unique hmem hrow)
    rcases h.ahead.dirs r names hr hparent with hoff | ⟨hfails | hmem, -⟩
    · exact hoff c hc hid.symm
    · cases hfails
    · cases hmem
  have hsongs : ∀ q ∈ unmet.songs, ∀ r, Survives disk roots v.1 r → r.1 ≠ q.dbId := by
    intro q hq r hr hid
    obtain ⟨row, hrow, hp⟩ := h.ahead.own q hq
    have hdir : r.2.dirId = d.dbId := by
      have hmem := hr.mem
      rw [show r = (r.1, r.2) from rfl, hid] at hmem
      have hlookup := Table.lookup_eq_some.mpr hmem
      rw [Table.lookup_eq_some.mpr hrow] at hlookup
      rw [← Option.some.inj hlookup, hp]
    rcases hr with ⟨-, helse⟩ | hmet
    · exact hv.under.not_elsewhere (hdir ▸ helse)
    · rcases h.ahead.songs r hmet hdir with ⟨hoff, -⟩ | ⟨hone | ⟨hfails, -⟩, -⟩
      · exact hoff q hq hid.symm
      · cases hone
      · cases hfails
  have hloopDirs : ∀ (l : List MusicDir) (s : Logged), Tidies disk roots d.dbId v (tables s) →
      (∀ c ∈ l, (c.dbId ≠ 0 ∧ ∀ row, (c.dbId, row) ∈ s.db.musicDirs.rows → row.parentId = d.dbId) ∧
        ∀ r names, Shown disk v.1.musicDirs r names → r.1 ≠ c.dbId) →
      Tidies disk roots d.dbId v (tables (after (l.forM MusicDir.destroy) s)) := by
    intro l
    induction l with
    | nil => exact fun _ h _ => h
    | cons c l ih =>
      intro s h hl
      simp only [List.forall_mem_cons] at hl
      have hfewer := (destroy_tended h.tended.sound hl.1.1.1 hl.1.1.2).2
      have hnext := h.destroyDir hv hl.1.1.1 hl.1.1.2 hl.1.2
      rw [List.forM_eq_forM, List.forM_cons, ← List.forM_eq_forM, after_bind]
      split
      · refine ih _ hnext fun c' hc' => ⟨⟨(hl.2 c' hc').1.1, fun row hr => ?_⟩, (hl.2 c' hc').2⟩
        exact (hl.2 c' hc').1.2 row (hfewer _ hr)
      · exact hnext
  have hloopSongs : ∀ (l : List Song) (s : Logged), Tidies disk roots d.dbId v (tables s) →
      (∀ q ∈ l, ∀ r, Survives disk roots v.1 r → r.1 ≠ q.dbId) →
      Tidies disk roots d.dbId v (tables (after (l.forM Song.destroy) s)) := by
    intro l
    induction l with
    | nil => exact fun _ h _ => h
    | cons q l ih =>
      intro s h hl
      simp only [List.forall_mem_cons] at hl
      have hnext := h.destroySong hv hl.1
      rw [List.forM_eq_forM, List.forM_cons, ← List.forM_eq_forM, after_bind]
      split
      · exact ih _ hnext hl.2
      · exact hnext
  have hs : Sound s.db := h.tidies.tended.sound
  have hfirst := hloopDirs unmet.dirs s h.tidies fun c hc => by
    obtain ⟨row, hrow, hp, -⟩ := h.listed c hc
    exact ⟨⟨(hs.dirs _ hrow).ne', fun row' hr' => Placed.row_unique hrow hr' ▸ hp⟩, hdirs c hc⟩
  rw [after_bind]
  split
  · exact hloopSongs _ _ hfirst hsongs
  · exact hfirst

/-! ## `sync` -/

theorem MusicDir.Stands.same {s' : Logged} (hd : d.Stands s.db) (h : tables s' = tables s) :
    d.Stands s'.db := by
  rwa [show s'.db = s.db from congrArg Prod.fst h]

/-- The rows that `songs` comes to. -/
theorem of_songs_ok {l : List Song} (h : outcome d.songs.run.scan s = .ok l) :
    l = MusicDir.songList s.db d.dbId := by
  rw [Run.scan, outcome_focus, outcome_run, MusicDir.songs, songsWhere, outcome_loadRows] at h
  split at h
  · cases h
  · exact (Except.ok.inj h).symm

/-- The entries that are listed. -/
theorem of_list_ok {path : List Bytes} {entries : List Bytes × Bool}
    (h : outcome (disk.list path) s = .ok entries) :
    entries = disk.leaves s.world.readings path := by
  rw [Disk.list, outcome_bind_ok (reading_returns s).outcome] at h
  exact (Except.ok.inj h).symm

theorem syncSaved_tidies (hcreate : TendsSongs create) (hsaves : TidiesSongs disk roots create)
    (left : Nat) (hsync : ∀ n, n < left → TidiesSync disk roots (MusicDir.syncFrom disk create n)) :
    TidiesSync disk roots (MusicDir.syncSaved disk create left) := by
  intro d s hd hv
  have hrefl : ∀ s' : Logged, tables s' = tables s →
      Tidies disk roots d.dbId (tables s) (tables s') := by
    intro s' hs'
    rw [hs']
    exact .refl hv
  cases left with
  | zero => exact .refl hv
  | succ left =>
    unfold MusicDir.syncSaved
    have hpath : Quiet d.path.scan := Queries.scan (.path d)
    have hchildren : Quiet d.children.run.scan := Queries.scan (.run (.loadRows _ _))
    have hsongs : Quiet d.songs.run.scan := Queries.scan (.run (.loadRows _ _))
    refine hpath.bind_of (P := Tidies disk roots d.dbId (tables s)) (.refl hv) fun path s₁ _ h₁ => ?_
    refine Quiet.bind_of (P := Tidies disk roots d.dbId (tables s))
      (keeps_existsAt quiet_reading disk path) (hrefl _ h₁) fun found s₂ _ h₂ => ?_
    have h₂ := h₂.trans h₁
    split
    · refine hchildren.bind_of (P := Tidies disk roots d.dbId (tables s)) (hrefl _ h₂)
        fun dirs s₃ hdirs h₃ => ?_
      obtain rfl := of_children_ok hdirs
      have h₃ := h₃.trans h₂
      refine hsongs.bind_of (P := Tidies disk roots d.dbId (tables s)) (hrefl _ h₃)
        fun songs s₄ hsongs h₄ => ?_
      obtain rfl := of_songs_ok hsongs
      have h₄ := h₄.trans h₃
      refine hpath.bind_of (P := Tidies disk roots d.dbId (tables s)) (hrefl _ h₄)
        fun path s₅ hwalk h₅ => ?_
      have h₅ := h₅.trans h₄
      refine Quiet.bind_of (P := Tidies disk roots d.dbId (tables s))
        (keeps_list quiet_reading disk path) (hrefl _ h₅) fun entries s₆ hlist h₆ => ?_
      have h₆ := h₆.trans h₅
      obtain rfl := of_list_ok hlist
      have hviews : Views disk s.db d.dbId path := by
        have hdb : s₄.db = s.db := congrArg Prod.fst h₄
        rw [← hdb]
        exact (hd.same h₄).views (hdb ▸ hv.sound) hwalk
      have hstart : Midway disk roots d.dbId (tables s) (disk.leaves s₅.world.readings path).2
          (disk.leaves s₅.world.readings path).1
          ⟨MusicDir.childList s₂.db d.dbId, MusicDir.songList s₃.db d.dbId⟩ s₆ := by
        have hdb₂ : s₂.db = s.db := congrArg Prod.fst h₂
        have hdb₃ : s₃.db = s.db := congrArg Prod.fst h₃
        rw [hdb₂, hdb₃]
        refine ⟨hrefl _ h₆, ?_, .start hviews _⟩
        rw [show s₆.db = s.db from congrArg Prod.fst h₆]
        exact childList_listed _
      have hloop := Triple.foldlM
        (I := Midway disk roots d.dbId (tables s) (disk.leaves s₅.world.readings path).2)
        (E := fun _ s' => Tidies disk roots d.dbId (tables s) (tables s'))
        (f := d.visit disk create (MusicDir.syncFrom disk create left) path)
        (disk.leaves s₅.world.readings path).1
        ⟨MusicDir.childList s₂.db d.dbId, MusicDir.songList s₃.db d.dbId⟩
        fun _ _ _ => visit_midway hcreate hsaves (hsync left (Nat.lt_succ_self left)) hv hviews
      refine Triple.after_of (R := fun s' => Tidies disk roots d.dbId (tables s) (tables s'))
        (hloop.bind fun unmet => .of_after fun s' hmidway => ?_) hstart
      split
      · exact hmidway.tidies
      · rename_i hends
        rw [Bool.not_eq_true] at hends
        rw [hends] at hmidway
        exact deleteUnmet_tidies hv hmidway
    · exact hrefl _ h₂

/-- `sync` of a directory that has a row. -/
theorem syncFrom_tidies (hcreate : TendsSongs create) (hsaves : TidiesSongs disk roots create)
    (left : Nat) : TidiesSync disk roots (MusicDir.syncFrom disk create left) := by
  induction left using Nat.strong_induction_on with
  | _ left ih =>
    intro d s hd hv
    rw [syncFrom_eq]
    refine (Queries.scan (.path d)).bind_of (P := Tidies disk roots d.dbId (tables s)) (.refl hv)
      fun _ s₁ _ h₁ => ?_
    rw [← h₁] at hv ⊢
    rw [saveIfNeeded_saved hv.sound hv.row, pure_bind]
    exact syncSaved_tidies hcreate hsaves left ih d s₁ (hd.same h₁) hv

end

/-! ## Roots -/

section

variable {disk : Disk} {roots : List Bytes} {s : Logged} {dir : Bytes}

/-- A row of a root with a scanned name. -/
theorem under_root (hroot : dir ∈ roots) {t : Table DirRow} {x : Int} {row : DirRow}
    (hr : (x, row) ∈ t.rows) (hp : row.parentId = 0) (hname : row.name.val = coerce dir) :
    Under roots t x := by
  obtain ⟨parentId, name⟩ := row
  obtain rfl : parentId = 0 := hp
  exact ⟨_, .root hr, dir, hroot, congrArg some hname⟩

/-- `sync` of a new root. -/
theorem syncRoot_spares (hs : Sound s.db) (hroot : dir ∈ roots) :
    Spares disk roots (tables s) (tables (after (MusicDir.sync disk ⟨0, 0, dir⟩) s)) := by
  have hcreate := createFromFile_tends disk
  have hsaves := createFromFile_tidies disk roots
  unfold MusicDir.sync
  rw [syncFrom_eq]
  refine (Queries.scan (.path ⟨0, 0, dir⟩)).bind_of (P := Spares disk roots (tables s)) (.refl _)
    fun _ s₁ _ h₁ => ?_
  rw [← h₁]
  have hs₁ : Sound s₁.db := by rwa [show s₁.db = s.db from congrArg Prod.fst h₁]
  rw [show MusicDir.saveIfNeeded ⟨0, 0, dir⟩ = MusicDir.saveNew ⟨0, 0, dir⟩ from if_pos rfl]
  have hsaved : Spares disk roots (tables s₁) (tables (after (MusicDir.saveNew ⟨0, 0, dir⟩) s₁)) :=
    spares_saveDir hs₁ _
  cases ho : outcome (MusicDir.saveNew ⟨0, 0, dir⟩) s₁ with
  | error e =>
    rw [after_bind_error ho]
    exact hsaved
  | ok d =>
    rw [after_bind_ok ho]
    obtain ⟨row, hrow, hid, ht⟩ := saveDir_ok ho
    have hmem : (d.dbId, row) ∈
        (after (MusicDir.saveNew ⟨0, 0, dir⟩) s₁).db.musicDirs.rows := by
      rw [show (after (MusicDir.saveNew ⟨0, 0, dir⟩) s₁).db = _ from congrArg Prod.fst ht, hid]
      exact Table.mem_rows_insert.mpr (.inr rfl)
    have hscanned : Scanned roots d.dbId (tables (after (MusicDir.saveNew ⟨0, 0, dir⟩) s₁)) :=
      ⟨(saveDir_tended (p := 0) hs₁ (.inl rfl)).1.sound, ⟨row, hmem⟩,
        under_root hroot hmem (parentId_toRow hrow) (congrArg Cell.print (name_toRow hrow))⟩
    have htidies := syncSaved_tidies hcreate hsaves 255
      (fun n _ => syncFrom_tidies hcreate hsaves n) d _ (saveDir_stands hs₁ (.inl rfl) ho) hscanned
    exact hsaved.trans htidies.spares

theorem initMusicDir_spares (hs : Sound s.db) (hroot : dir ∈ roots) :
    Spares disk roots (tables s) (tables (after (initMusicDir disk dir) s)) := by
  have hquiet : Quiet (MusicDir.createRoot dir).run.scan := Queries.scan (.run (.createRoot dir))
  unfold initMusicDir
  refine hquiet.bind_of (P := Spares disk roots (tables s)) (.refl _) fun d s₁ ho h₁ => ?_
  have hdb : s₁.db = s.db := congrArg Prod.fst h₁
  have hfound : outcome (MusicDir.createRoot dir) s.world = .ok d := ok_of_run (ok_of_scan ho)
  rw [← h₁]
  rcases createRoot_ok hfound with ⟨row, hr, hp, hname, hself⟩ | rfl
  · have hr₁ : (d.dbId, row) ∈ s₁.db.musicDirs.rows := by
      rw [hdb]
      exact hr
    refine (syncFrom_tidies (createFromFile_tends disk) (createFromFile_tidies disk roots) 255 d s₁
      ⟨row, hr₁, .inl hself⟩ ⟨?_, ⟨row, hr₁⟩, under_root hroot hr₁ hp
        (congrArg Cell.print hname)⟩).spares
    rwa [show (tables s₁).1 = s.db from hdb]
  · exact syncRoot_spares (hdb ▸ hs) hroot

theorem rescan_spares (hs : Sound s.db) {dirs : List Bytes} (hdirs : ∀ dir ∈ dirs, dir ∈ roots) :
    Spares disk roots (tables s) (tables (after (rescan disk dirs) s)) := by
  unfold rescan
  induction dirs generalizing s with
  | nil => exact .refl _
  | cons dir dirs ih =>
    simp only [List.forall_mem_cons] at hdirs
    have hone : Spares disk roots (tables s) (tables (after (initMusicDir disk dir) s)) :=
      initMusicDir_spares hs hdirs.1
    have hsound := (initMusicDir_kept hs disk dir).sound
    rw [List.forM_eq_forM, List.forM_cons, ← List.forM_eq_forM, after_bind]
    split
    · exact hone.trans (ih hsound hdirs.2)
    · exact hone

/-- A rescan leaves every song that lies under another root and every song that the disk has at
every reading, in all states it goes through. -/
theorem rescan_survives (hs : Sound s.db) (disk : Disk) (dirs : List Bytes) {r : Int × SongRow}
    (hr : Survives disk dirs s.db r) :
    Survives disk dirs (after (rescan disk dirs) s).db r ∧
      ∀ db ∈ (after (rescan disk dirs) s).passed, db ∈ s.passed ∨ r ∈ db.songs.rows := by
  have hspares : Spares disk dirs (tables s) (tables (after (rescan disk dirs) s)) :=
    rescan_spares hs fun _ h => h
  exact ⟨hspares.survives hr, fun db hdb => (hspares.passed db hdb).imp_right fun hall => hall r hr⟩

end

/-- A disk with the root and the song of `rootWithSong`. -/
def recordDisk : Disk where
  status _ path := if path = [lit "/music"] then .directory else .file
  leaves _ path := if path = [lit "/music"] then ([lit "a.mp3"], false) else ([], false)
  tag _ _ := none

theorem rootWithSong_sound : Sound rootWithSong where
  linked := {
    dirs := rootWithSong_forest
    songs := fun r hr => by
      obtain rfl := List.mem_singleton.mp hr
      exact ⟨_, List.mem_singleton.mpr rfl⟩ }
  dirs r hr := by
    obtain rfl := List.mem_singleton.mp hr
    exact Int.one_pos
  songs r hr := by
    obtain rfl := List.mem_singleton.mp hr
    exact Int.one_pos

omit [Affinity] in
theorem nulFree_record : nulFree (lit "a.mp3") = true := by
  decide

/-- The song of `rootWithSong`. -/
def recordSong : Int × SongRow :=
  (1, ⟨1, 1, 1, .ofLiteral (lit "a.mp3") nulFree_record, .empty, 0, 0, 0, 0⟩)

theorem recordSong_mem : recordSong ∈ rootWithSong.songs.rows := List.mem_singleton.mpr rfl

theorem recordSong_fileName : recordSong.2.fileName.val = lit "a.mp3" := coerce_alpha 97 _ rfl

/-- The disk has the song, where the name of the root stays as it is. -/
theorem recordSong_met (h : coerce (lit "/music") = lit "/music") :
    Met recordDisk rootWithSong recordSong where
  mem := recordSong_mem
  shown := by
    refine ⟨_, _, .root (List.mem_singleton.mpr rfl), rfl, ?_⟩
    rw [show (Text.ofLiteral (lit "/music") nulFree_music).val = lit "/music" from h,
      recordSong_fileName]
    refine ⟨fun n => .inl ?_, fun n => ?_⟩
    · have hstored : coerce (lit "a.mp3") = lit "a.mp3" := coerce_alpha 97 _ rfl
      change namesakes (lit "a.mp3") [lit "a.mp3"] = [lit "a.mp3"]
      rw [namesakes_cons_of_eq hstored]
      rfl
    · change (if [lit "/music", lit "a.mp3"] = [lit "/music"] then FileStatus.directory
        else .file) ≠ .directory
      decide
  interesting := by
    rw [recordSong_fileName]
    decide
  single s hs _ _ := by
    obtain rfl := List.mem_singleton.mp hs
    rfl

omit [Affinity] in
/-- A rescan of the root leaves its song. -/
theorem record_survives : ∃ _ : Affinity, Survives recordDisk [lit "/music"]
    (after (rescan recordDisk [lit "/music"]) (.start (.start rootWithSong))).db recordSong := by
  let _ := integerAffinity
  exact ⟨integerAffinity, (rescan_survives (s := .start (.start rootWithSong)) rootWithSong_sound
    recordDisk [lit "/music"] (.inr (recordSong_met (by decide)))).1⟩

end Spinny

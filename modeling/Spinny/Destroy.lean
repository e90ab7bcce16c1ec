import Spinny.Forest
import Spinny.Scan

/-!
# `MusicDir::destroy`

`destroy` goes to the children that the object's `db_id` names, then to the songs, and deletes the
row of the object last. An object without a row has the `db_id` 0, which is also the `parent_id`
of every root.

* `destroyFrom_triple`: what is deleted, and that no change on the way leaves a link to a row that
  is gone.
* `destroysSubtree_iff`: which objects `destroy` is right for.
-/

namespace Spinny

open Bytes Sqlite Proc

variable [Affinity]

/-! ## Single statements of a scan -/

/-- The state after a change of the tables. -/
def Logged.changed (s : Logged) (f : Database → Database) : Logged :=
  { s with world := { s.world with db := f s.db }, passed := f s.db :: s.passed }

@[simp] theorem Logged.db_changed (s : Logged) (f : Database → Database) :
    (s.changed f).db = f s.db := rfl

theorem change_returns {s : Logged} (hs : s.world.stale = false) (f : Database → Database) :
    Returns (change true f) s () (s.changed f) := by
  have ho : outcome (execUpdate true f).run.scan s = .ok () := by
    rw [Run.scan, outcome_focus, outcome_run, outcome_execUpdate]
    simp [hs, Except.mapError]
  have ha : after (execUpdate true f).run.scan s =
      { s with world := { s.world with db := f s.db } } := by
    rw [Run.scan, after_focus, after_run, after_execUpdate, if_neg (by simp [hs])]
    cases s with
    | mk w events passed =>
      cases w
      simp_all [Logged.db]
  have hexec : Returns (execUpdate true f).run.scan s ()
      { s with world := { s.world with db := f s.db } } := ⟨ho, ha⟩
  exact hexec.bind ⟨rfl, rfl⟩

theorem Run.scan_returns {α : Type} {x : Run α} {s : Logged} {a : α}
    (h : Returns x s.world a s.world) : Returns x.scan s a s where
  outcome := by
    rw [Run.scan, outcome_focus, h.outcome]
    rfl
  after := by
    rw [Run.scan, after_focus, h.after]

/-- A query whose statement is accepted gives its rows and changes nothing. -/
theorem loadRows_returns {α : Type} {s : Logged} (hs : s.world.stale = false)
    (f : Database → List α) : Returns (loadRows true f).run.scan s (f s.db) s := by
  refine Run.scan_returns ⟨?_, ?_⟩
  · rw [outcome_run, outcome_loadRows]
    simp [hs, Except.mapError, Logged.db]
  · rw [after_run, after_loadRows, Bool.not_true, Bool.or_false]

/-- The rows that `children` lists. -/
def MusicDir.childList (db : Database) (id : Int) : List MusicDir :=
  orderByUpper MusicDir.name
    ((db.musicDirs.select fun _ d => d.parentId == id).map fun r => ofRow r.1 r.2)

/-- The rows that `songs` lists. -/
def MusicDir.songList (db : Database) (id : Int) : List Song :=
  (orderByTrack (db.songs.select fun _ s => s.dirId == id)).map fun r => Song.ofRow r.1 r.2

namespace MusicDir

theorem mem_childList {db : Database} {id : Int} {c : MusicDir} :
    c ∈ childList db id ↔
      ∃ row, (c.dbId, row) ∈ db.musicDirs.rows ∧ row.parentId = id ∧ c = ofRow c.dbId row := by
  simp only [childList, orderByUpper, List.mem_mergeSort, List.mem_map, Table.mem_select,
    beq_iff_eq, Prod.exists]
  constructor
  · rintro ⟨i, row, ⟨hr, hp⟩, rfl⟩
    exact ⟨row, hr, hp, rfl⟩
  · rintro ⟨row, hr, hp, hc⟩
    exact ⟨_, row, ⟨hr, hp⟩, hc.symm⟩

theorem mem_songList {db : Database} {id : Int} {s : Song} :
    s ∈ songList db id ↔
      ∃ row, (s.dbId, row) ∈ db.songs.rows ∧ row.dirId = id ∧ s = .ofRow s.dbId row := by
  simp only [songList, orderByTrack, orderByUpper, List.mem_mergeSort, List.mem_map,
    Table.mem_select, beq_iff_eq, Prod.exists]
  constructor
  · rintro ⟨i, row, ⟨hr, hp⟩, rfl⟩
    exact ⟨row, hr, hp, rfl⟩
  · rintro ⟨row, hr, hp, hc⟩
    exact ⟨_, row, ⟨hr, hp⟩, hc.symm⟩

theorem children_returns {s : Logged} (hs : s.world.stale = false) (d : MusicDir) :
    Returns d.children.run.scan s (childList s.db d.dbId) s := loadRows_returns hs _

theorem songs_returns {s : Logged} (hs : s.world.stale = false) (d : MusicDir) :
    Returns d.songs.run.scan s (songList s.db d.dbId) s := loadRows_returns hs _

end MusicDir

/-! ## Deleting songs -/

/-- The songs with the rowids `ids` are deleted, and nothing else; the tables stay linked on the
way. -/
structure SongsGone (ids : List Int) (s₀ s : Logged) : Prop where
  songs : ∀ r, r ∈ s.db.songs.rows ↔ r ∈ s₀.db.songs.rows ∧ r.1 ∉ ids
  rest : { s.world with db := { s.db with songs := s₀.db.songs } } = s₀.world
  passed : Linked s₀.db → ∀ db ∈ s.passed, db ∈ s₀.passed ∨ Linked db

namespace SongsGone

variable {ids : List Int} {s₀ s : Logged}

theorem refl (s : Logged) : SongsGone [] s s where
  songs r := by simp
  rest := rfl
  passed _ _ hdb := .inl hdb

theorem musicDirs (h : SongsGone ids s₀ s) : s.db.musicDirs = s₀.db.musicDirs := by
  have := congrArg (fun w => w.db.musicDirs) h.rest
  exact this

theorem stale (h : SongsGone ids s₀ s) : s.world.stale = s₀.world.stale := by
  have := congrArg World.stale h.rest
  exact this

theorem linked (h : SongsGone ids s₀ s) (hl : Linked s₀.db) : Linked s.db where
  dirs := h.musicDirs ▸ hl.dirs
  songs r hr := by
    rw [h.musicDirs]
    exact hl.songs r ((h.songs r).mp hr).1

end SongsGone

/-- The state after a song is deleted. -/
def Logged.withoutSong (s : Logged) (id : Int) : Logged :=
  { s.changed (.mapSongs fun t => t.deleteWhere fun i _ => i == id) with
    events := .deleted id :: s.events }

theorem Song.destroy_returns {s : Logged} (hs : s.world.stale = false) {song : Song}
    (hid : song.dbId ≠ 0) : Returns song.destroy s () (s.withoutSong song.dbId) := by
  unfold Song.destroy
  rw [if_pos hid]
  exact (change_returns hs _).bind ⟨rfl, rfl⟩

theorem SongsGone.withoutSong {ids : List Int} {s₀ s : Logged} (h : SongsGone ids s₀ s) (id : Int) :
    SongsGone (ids ++ [id]) s₀ (s.withoutSong id) := by
  have hsongs : ∀ r, r ∈ (s.withoutSong id).db.songs.rows ↔
      r ∈ s₀.db.songs.rows ∧ r.1 ∉ ids ++ [id] := by
    intro r
    change r ∈ (s.db.songs.deleteWhere fun i _ => i == id).rows ↔ _
    rw [Table.mem_rows_deleteWhere, h.songs]
    simp [and_assoc]
  refine ⟨hsongs, h.rest, fun hl db hdb => ?_⟩
  rcases List.mem_cons.mp hdb with rfl | hdb
  · refine .inr ⟨(h.linked hl).dirs, fun r hr => (h.linked hl).songs r ?_⟩
    exact (Table.mem_rows_deleteWhere.mp hr).1
  · exact h.passed hl db hdb

/-- Deleting songs one after the other. -/
theorem destroySongs_triple {s₀ : Logged} (hs : s₀.world.stale = false) (l : List Song)
    (hl : ∀ song ∈ l, song.dbId ≠ 0) :
    Triple (· = s₀) (l.forM Song.destroy)
      (fun _ s => SongsGone (l.map Song.dbId) s₀ s) fun _ _ => False := by
  have hloop := Triple.forM (E := fun _ _ => False) (f := Song.destroy)
    (I := fun rest s => ∃ done, l = done ++ rest ∧ SongsGone (done.map Song.dbId) s₀ s) l
    fun song rest s ⟨done, hdone, hgone⟩ => by
      have hret := Song.destroy_returns (hgone.stale.trans hs)
        (hl song (by simp [hdone]))
      rw [hret.outcome, hret.after]
      refine ⟨done ++ [song], by simp [hdone], ?_⟩
      rw [List.map_append]
      exact hgone.withoutSong song.dbId
  refine hloop.conseq ?_ ?_ fun _ _ h => h
  · rintro s rfl
    exact ⟨[], rfl, .refl s⟩
  · rintro _ s ⟨done, hdone, hgone⟩
    rw [List.append_nil] at hdone
    rw [hdone]
    exact hgone

/-! ## Deleting directories -/

/-- The directories of a set are deleted with their songs, and nothing else; the tables stay
linked on the way. -/
structure Gone (dead : Set Int) (s₀ s : Logged) : Prop where
  pruned : Pruned dead s₀.db s.db
  world : { s.world with db := s₀.db } = s₀.world
  passed : Linked s₀.db → ∀ db ∈ s.passed, db ∈ s₀.passed ∨ Linked db

namespace Gone

variable {dead dead' : Set Int} {s₀ s₁ s : Logged}

theorem refl (s : Logged) : Gone ∅ s s where
  pruned := .refl s.db
  world := rfl
  passed _ _ hdb := .inl hdb

theorem stale (h : Gone dead s₀ s) : s.world.stale = s₀.world.stale := by
  have := congrArg World.stale h.world
  exact this

theorem trans (hdown : DownClosed s₀.db.musicDirs dead) (h : Gone dead s₀ s₁)
    (h' : Gone dead' s₁ s) : Gone (dead ∪ dead') s₀ s where
  pruned := h.pruned.trans h'.pruned
  world := by
    have h₁ := h.world
    have h₂ := congrArg (fun w => { w with db := s₀.db }) h'.world
    exact h₂.trans h₁
  passed hl db hdb := by
    rcases h'.passed (hl.pruned hdown h.pruned) db hdb with hdb | hdb
    · exact h.passed hl db hdb
    · exact .inr hdb

end Gone

/-- The rowids of directories and songs are not 0, as SQLite gives none below 1. -/
structure Numbered (db : Database) : Prop where
  dirs : ∀ r ∈ db.musicDirs.rows, r.1 ≠ 0
  songs : ∀ r ∈ db.songs.rows, r.1 ≠ 0

theorem Numbered.pruned {db db' : Database} {dead : Set Int} (h : Numbered db)
    (hp : Pruned dead db db') : Numbered db' where
  dirs r hr := h.dirs r ((hp.dirs r).mp hr).1
  songs r hr := h.songs r ((hp.songs r).mp hr).1

/-- The row of a directory none of whose children is left is deleted after its songs. -/
theorem destroyRow_triple {s₁ : Logged} {d : MusicDir} (hs : s₁.world.stale = false)
    (hnum : Numbered s₁.db) (hleaf : ∀ x, ¬ IsChild s₁.db.musicDirs x d.dbId) :
    Triple (SongsGone ((MusicDir.songList s₁.db d.dbId).map Song.dbId) s₁) d.destroyRow
      (fun _ s => Gone {d.dbId} s₁ s) fun _ _ => False := by
  have hdown : DownClosed s₁.db.musicDirs {d.dbId} := by
    intro x p hx hp
    obtain rfl := Set.mem_singleton_iff.mp hp
    exact absurd hx (hleaf x)
  have hids : ∀ r ∈ s₁.db.songs.rows,
      r.1 ∈ (MusicDir.songList s₁.db d.dbId).map Song.dbId ↔ r.2.dirId = d.dbId := by
    intro r hr
    simp only [List.mem_map, MusicDir.mem_songList]
    constructor
    · rintro ⟨song, ⟨row, hrow, hdir, -⟩, hid⟩
      rw [hid] at hrow
      have h := Table.lookup_eq_some.mpr hr
      rw [Table.lookup_eq_some.mpr hrow] at h
      rw [← Option.some.inj h, hdir]
    · intro hdir
      exact ⟨.ofRow r.1 r.2, ⟨r.2, hr, hdir, rfl⟩, rfl⟩
  intro s₂ hgone
  have hsongs : ∀ r, r ∈ s₂.db.songs.rows ↔
      r ∈ s₁.db.songs.rows ∧ r.2.dirId ∉ ({d.dbId} : Set Int) := by
    intro r
    rw [hgone.songs, Set.mem_singleton_iff]
    exact and_congr_right fun hr => not_congr (hids r hr)
  unfold MusicDir.destroyRow
  by_cases hk : d.dbId = 0
  · rw [if_neg (not_not.mpr hk)]
    refine ⟨⟨fun r => ?_, hsongs, ?_⟩, ?_, hgone.passed⟩
    · rw [after_pure, hgone.musicDirs, Set.mem_singleton_iff, hk]
      exact ⟨fun hr => ⟨hr, hnum.dirs r hr⟩, And.left⟩
    · have h := congrArg (fun w => { w.db with musicDirs := s₁.db.musicDirs }) hgone.rest
      exact h
    · have h := congrArg (fun w => { w with db := s₁.db }) hgone.rest
      exact h
  · rw [if_pos hk]
    have hret := change_returns (hgone.stale.trans hs)
      (.mapDirs fun t => t.deleteWhere fun id _ => id == d.dbId)
    rw [hret.outcome, hret.after]
    have hp : Pruned {d.dbId} s₁.db
        (s₂.db.mapDirs fun t => t.deleteWhere fun id _ => id == d.dbId) := by
      refine ⟨fun r => ?_, hsongs, ?_⟩
      · change r ∈ (s₂.db.musicDirs.deleteWhere fun id _ => id == d.dbId).rows ↔ _
        rw [Table.mem_rows_deleteWhere, hgone.musicDirs, Set.mem_singleton_iff]
        simp
      · have h := congrArg (fun w => { w.db with musicDirs := s₁.db.musicDirs }) hgone.rest
        exact h
    refine ⟨hp, ?_, fun hl db hdb => ?_⟩
    · have h := congrArg (fun w => { w with db := s₁.db }) hgone.rest
      exact h
    · rcases List.mem_cons.mp hdb with rfl | hdb
      · exact .inr (hl.pruned hdown hp)
      · exact hgone.passed hl db hdb

/-- How far `destroy` has come with the children of `p`: the directories in `dead` are gone. -/
structure ChildrenGone (p : Int) (s₀ : Logged) (rest : List MusicDir) (s : Logged)
    (dead : Set Int) : Prop where
  gone : Gone dead s₀ s
  down : DownClosed s₀.db.musicDirs dead
  below : ∀ x ∈ dead, Below s₀.db.musicDirs p x
  listed : ∀ c ∈ rest, IsChild s₀.db.musicDirs c.dbId p
  children : ∀ x, IsChild s₀.db.musicDirs x p → x ∈ dead ∨ ∃ c ∈ rest, c.dbId = x

theorem ChildrenGone.next {p : Int} {s₀ s s' : Logged} {child : MusicDir} {rest : List MusicDir}
    {dead : Set Int} (h : ChildrenGone p s₀ (child :: rest) s dead)
    (hgone : Gone (subtree s.db.musicDirs child.dbId) s s') :
    ChildrenGone p s₀ rest s' (dead ∪ subtree s.db.musicDirs child.dbId) := by
  have hchild := h.listed child (by simp)
  refine ⟨h.gone.trans h.down hgone, ?_, ?_, fun c hc => h.listed c (by simp [hc]), ?_⟩
  · intro x y hxy hy
    by_cases hx : x ∈ dead
    · exact .inl hx
    · rcases hy with hy | hy
      · exact .inl (h.down x y hxy hy)
      · have hxy' : IsChild s.db.musicDirs x y := by
          obtain ⟨row, hr, hp⟩ := hxy
          exact ⟨row, (h.gone.pruned.dirs _).mpr ⟨hr, hx⟩, hp⟩
        rcases hy with rfl | hy
        · exact .inr (.inr (.single hxy'))
        · exact .inr (.inr (.head hxy' hy))
  · rintro x (hx | rfl | hx)
    · exact h.below x hx
    · exact .single hchild
    · exact (hx.mono h.gone.pruned.dirs_subset).tail hchild
  · intro x hx
    rcases h.children x hx with hx | ⟨c, hc, rfl⟩
    · exact .inl (.inl hx)
    · rcases List.mem_cons.mp hc with rfl | hc
      · exact .inl (.inr (.inl rfl))
      · exact .inr ⟨c, hc, rfl⟩

/-- With its children everything below a directory is gone. -/
theorem ChildrenGone.all {p : Int} {s₀ s : Logged} {dead : Set Int}
    (h : ChildrenGone p s₀ [] s dead) : dead = {x | Below s₀.db.musicDirs p x} := by
  refine Set.ext fun x => ⟨h.below x, fun hx => ?_⟩
  induction hx using Relation.TransGen.head_induction_on with
  | single hx => exact (h.children _ hx).resolve_right (by simp)
  | head hx _ ih => exact h.down _ _ hx ih

/-- `destroy` deletes a directory and all below it with their songs. -/
theorem destroyFrom_triple (n : Nat) (d : MusicDir) (s₀ : Logged) (hs : s₀.world.stale = false)
    (hnum : Numbered s₀.db) (hn : Shallow s₀.db.musicDirs n d.dbId) :
    Triple (· = s₀) (d.destroyFrom n)
      (fun _ s => Gone (subtree s₀.db.musicDirs d.dbId) s₀ s) fun _ _ => False := by
  induction n generalizing d s₀ with
  | zero => exact absurd hn id
  | succ n ih =>
    rintro s rfl
    unfold MusicDir.destroyFrom
    have hchildren := MusicDir.children_returns hs d
    rw [outcome_bind_ok hchildren.outcome, after_bind_ok hchildren.outcome, hchildren.after]
    -- the children, one after the other
    have hloop : Triple (· = s) ((MusicDir.childList s.db d.dbId).forM (MusicDir.destroyFrom n))
        (fun _ s₁ => ∃ dead, ChildrenGone d.dbId s [] s₁ dead) fun _ _ => False := by
      refine (Triple.forM (E := fun _ _ => False)
        (I := fun rest s₁ => ∃ dead, ChildrenGone d.dbId s rest s₁ dead) _ ?_).conseq ?_
        (fun _ _ h => h) fun _ _ h => h
      · rintro child rest s₁ ⟨dead, h⟩
        have hstale := h.gone.stale.trans hs
        have hshallow := (hn _ (h.listed child (by simp))).mono h.gone.pruned.dirs_subset
        have hret := ih child s₁ hstale (hnum.pruned h.gone.pruned) hshallow s₁ rfl
        cases ho : outcome (child.destroyFrom n) s₁ with
        | ok _ =>
          rw [ho] at hret
          exact ⟨_, h.next hret⟩
        | error e =>
          rw [ho] at hret
          exact hret.elim
      · rintro s₁ rfl
        refine ⟨∅, .refl s₁, fun _ _ _ h => h.elim, fun _ h => h.elim, fun c hc => ?_, fun x hx => ?_⟩
        · obtain ⟨row, hr, hp, -⟩ := MusicDir.mem_childList.mp hc
          exact ⟨row, hr, hp⟩
        · obtain ⟨row, hr, hp⟩ := hx
          exact .inr ⟨.ofRow x row, MusicDir.mem_childList.mpr ⟨row, hr, hp, rfl⟩, rfl⟩
    refine Triple.bind hloop (fun _ => ?_) s rfl
    rintro s₁ ⟨dead, h⟩
    -- its songs and its row
    have hs₁ := h.gone.stale.trans hs
    have hnum₁ := hnum.pruned h.gone.pruned
    have hleaf : ∀ x, ¬ IsChild s₁.db.musicDirs x d.dbId := by
      rintro x ⟨row, hr, hp⟩
      obtain ⟨hr, hx⟩ := (h.gone.pruned.dirs _).mp hr
      rw [h.all] at hx
      exact hx (.single ⟨row, hr, hp⟩)
    have hsongs := MusicDir.songs_returns hs₁ d
    rw [outcome_bind_ok hsongs.outcome, after_bind_ok hsongs.outcome, hsongs.after]
    have hnz : ∀ song ∈ MusicDir.songList s₁.db d.dbId, song.dbId ≠ 0 := by
      intro song hsong
      obtain ⟨row, hr, -, -⟩ := MusicDir.mem_songList.mp hsong
      exact hnum₁.songs _ hr
    refine ((destroySongs_triple hs₁ _ hnz).bind fun _ =>
      (destroyRow_triple hs₁ hnum₁ hleaf).conseq (fun _ h => h) (fun _ s₃ h₃ => ?_)
        fun _ _ h => h) s₁ rfl
    have htrans := h.gone.trans h.down h₃
    rw [h.all, Set.union_comm] at htrans
    exact htrans

/-! ## Objects with and without a row -/

namespace MusicDir

variable {s : Logged} {d : MusicDir}

/-- The directory has a row. -/
def HasRow (d : MusicDir) (db : Database) : Prop := ∃ row, (d.dbId, row) ∈ db.musicDirs.rows

/-- The rows that `destroy` is for: with a row, the directory and all below it. -/
def subtreeOf (d : MusicDir) (db : Database) : Set Int :=
  {x | d.HasRow db ∧ x ∈ subtree db.musicDirs d.dbId}

/-- `destroy` returns and deletes the rows it is for with their songs, and no other row. -/
structure DestroysSubtree (d : MusicDir) (s : Logged) : Prop where
  returns : outcome d.destroy s = .ok ()
  pruned : Pruned (d.subtreeOf s.db) s.db (after d.destroy s).db

/-- No row names the directory. -/
def Unnamed (d : MusicDir) (db : Database) : Prop :=
  (∀ r ∈ db.musicDirs.rows, r.2.parentId ≠ d.dbId) ∧ ∀ r ∈ db.songs.rows, r.2.dirId ≠ d.dbId

theorem destroy_gone (hs : s.world.stale = false) (hf : Forest s.db.musicDirs)
    (hsongs : ∀ r ∈ s.db.songs.rows, r.1 ≠ 0) (d : MusicDir) :
    outcome d.destroy s = .ok () ∧
      Gone (subtree s.db.musicDirs d.dbId) s (after d.destroy s) := by
  have h := destroyFrom_triple _ d s hs ⟨fun r hr => (hf r hr).1, hsongs⟩ (hf.shallow d.dbId) s rfl
  unfold destroy
  rw [outcome_bind_ok (outcome_get s), after_bind_ok (outcome_get s), after_get]
  cases ho : outcome (d.destroyFrom (s.db.musicDirs.rows.length + 1)) s with
  | ok _ =>
    rw [ho] at h
    exact ⟨rfl, h⟩
  | error e =>
    rw [ho] at h
    exact h.elim

/-- A refused statement in the buffer stops the first query. -/
theorem destroy_stale (hs : s.world.stale = true) : outcome d.destroy s ≠ .ok () := by
  unfold destroy
  rw [outcome_bind_ok (outcome_get s), after_get, destroyFrom]
  have ho : outcome d.children.run.scan s = .error (.raise (.exn .databaseError)) := by
    rw [Run.scan, outcome_focus, outcome_run, children, childrenOf, outcome_loadRows,
      if_pos (.inl hs)]
    rfl
  rw [outcome_bind_error ho]
  exact fun h => by cases h

/-- Where no row names the directory, nothing lies below it. -/
theorem Unnamed.not_mem {db : Database} (h : d.Unnamed db) {x : Int}
    (hx : x ∈ subtree db.musicDirs d.dbId) : x = d.dbId := by
  rcases hx with rfl | hx
  · rfl
  · obtain ⟨y, -, row, hr, hp⟩ := Relation.TransGen.tail'_iff.mp hx
    exact absurd hp (h.1 _ hr)

/-- `destroy` does what it is for if and only if the object has a row or no row names its `db_id`;
an object without a row has the `db_id` 0, the parent of every root. -/
theorem destroysSubtree_iff (hf : Forest s.db.musicDirs) (hsongs : ∀ r ∈ s.db.songs.rows, r.1 ≠ 0)
    (d : MusicDir) :
    d.DestroysSubtree s ↔ s.world.stale = false ∧ (d.HasRow s.db ∨ d.Unnamed s.db) := by
  constructor
  · intro h
    have hs : s.world.stale = false := by
      cases hs : s.world.stale with
      | false => rfl
      | true => exact absurd h.returns (destroy_stale hs)
    obtain ⟨-, hgone⟩ := destroy_gone hs hf hsongs d
    refine ⟨hs, or_iff_not_imp_left.mpr fun hrow => ⟨fun r hr hp => ?_, fun r hr hp => ?_⟩⟩
    · have hkept := (h.pruned.dirs r).mpr ⟨hr, fun hx => hrow hx.1⟩
      exact ((hgone.pruned.dirs r).mp hkept).2 (.inr (.single ⟨r.2, hr, hp⟩))
    · have hkept := (h.pruned.songs r).mpr ⟨hr, fun hx => hrow hx.1⟩
      exact ((hgone.pruned.songs r).mp hkept).2 (.inl hp)
  · rintro ⟨hs, hd⟩
    obtain ⟨hret, hgone⟩ := destroy_gone hs hf hsongs d
    refine ⟨hret, fun r => ?_, fun r => ?_, hgone.pruned.rest⟩
    · rw [hgone.pruned.dirs]
      refine and_congr_right fun hr => not_congr ⟨fun hx => ⟨?_, hx⟩, And.right⟩
      rcases hd with hd | hd
      · exact hd
      · exact ⟨r.2, hd.not_mem hx ▸ hr⟩
    · rw [hgone.pruned.songs]
      refine and_congr_right fun hr => not_congr ⟨fun hx => ⟨?_, hx⟩, And.right⟩
      rcases hd with hd | hd
      · exact hd
      · exact absurd (hd.not_mem hx) (hd.2 r hr)

end MusicDir

omit [Affinity] in
theorem nulFree_music : nulFree (lit "/music") = true := by
  decide

/-- A library with a root and a song in it. -/
def rootWithSong : Database where
  __ := Database.empty
  musicDirs := .single 1 ⟨0, .ofLiteral (lit "/music") nulFree_music⟩
  songs := .single 1 ⟨1, 1, 1, .ofLiteral (lit "a.mp3") (by decide), .empty, 0, 0, 0, 0⟩

theorem rootWithSong_forest : Forest rootWithSong.musicDirs := by
  intro r hr
  obtain rfl := List.mem_singleton.mp hr
  exact ⟨one_ne_zero, _, .root hr⟩

theorem rootWithSong_songs : ∀ r ∈ rootWithSong.songs.rows, r.1 ≠ 0 := by
  intro r hr
  obtain rfl := List.mem_singleton.mp hr
  exact one_ne_zero

/-- The library with a directory in the root and a song in that. -/
def nestedLibrary : Database :=
  { rootWithSong with
    musicDirs := rootWithSong.musicDirs.insert ⟨1, .ofLiteral (lit "jazz") (by decide)⟩
    songs := rootWithSong.songs.insert
      ⟨2, 1, 1, .ofLiteral (lit "b.mp3") (by decide), .empty, 0, 0, 0, 0⟩ }

theorem nestedLibrary_forest : Forest nestedLibrary.musicDirs := by
  have hpos : ∀ r ∈ rootWithSong.musicDirs.rows, 0 < r.1 := by
    intro r hr
    obtain rfl := List.mem_singleton.mp hr
    exact one_pos
  exact rootWithSong_forest.insert hpos (.inr ⟨_, List.mem_singleton.mpr rfl⟩) _

theorem nestedLibrary_songs : ∀ r ∈ nestedLibrary.songs.rows, r.1 ≠ 0 := by
  intro r hr
  rcases List.mem_append.mp hr with hr | hr
  · exact rootWithSong_songs r hr
  · obtain rfl := List.mem_singleton.mp hr
    exact two_ne_zero

omit [Affinity] in
/-- The root is deleted with the directory in it and the songs of both. -/
theorem root_destroyed : ∃ _ : Affinity,
    (MusicDir.mk 1 0 (lit "/music")).DestroysSubtree (.start (.start nestedLibrary)) :=
  ⟨integerAffinity, (@MusicDir.destroysSubtree_iff integerAffinity
    (@Logged.start integerAffinity (@World.start integerAffinity (@nestedLibrary integerAffinity)))
    (@nestedLibrary_forest integerAffinity) (@nestedLibrary_songs integerAffinity) _).mpr
      ⟨rfl, .inl ⟨_, List.mem_append_left _ (List.mem_singleton.mpr rfl)⟩⟩⟩

omit [Affinity] in
/-- An object that `create_root` made for another path and that was never saved deletes the root. -/
theorem unsaved_destroys : ∃ _ : Affinity,
    outcome (MusicDir.createRoot (lit "/new")) (.start rootWithSong) = .ok ⟨0, 0, lit "/new"⟩ ∧
      ¬ (MusicDir.mk 0 0 (lit "/new")).DestroysSubtree (.start (.start rootWithSong)) := by
  let _ := integerAffinity
  refine ⟨integerAffinity, ?_, fun h => ?_⟩
  · rfl
  · obtain ⟨-, hgone⟩ := MusicDir.destroy_gone (s := .start (.start rootWithSong)) rfl
      rootWithSong_forest rootWithSong_songs ⟨0, 0, lit "/new"⟩
    have hrow : (1, ⟨0, .ofLiteral (lit "/music") (by decide)⟩) ∈ rootWithSong.musicDirs.rows :=
      List.mem_singleton.mpr rfl
    have hkept := (h.pruned.dirs _).mpr ⟨hrow, fun hx => ?_⟩
    · exact ((hgone.pruned.dirs _).mp hkept).2 (.inr (.single ⟨_, hrow, rfl⟩))
    · obtain ⟨row, hr⟩ := hx.1
      have := congrArg Prod.fst (List.mem_singleton.mp hr)
      simp at this

end Spinny

import Spinny.Entries

/-!
# What is done below a directory

A scan of a directory touches the rows below it and no others, so that what was brought about below
one directory stays while the next one is scanned.

* `Watched`: the rowids of directories fit an `int` where those of all states on the way do.
* `Enclosed`: what is done below a directory only.
* `Enclosed.sameBelow`: it leaves what lies below another directory.
-/

namespace Spinny

open Bytes Sqlite Proc

variable [Affinity]

/-! ## Rowids that fit an `int` -/

/-- In one of the states a parent has a rowid that is no `int`. -/
def Wide (s : Logged) : Prop := ∃ db ∈ s.passed, ¬ Narrow db

/-- Where no state is wide, the directories stay narrow. -/
structure Watched (s s' : Logged) : Prop where
  passed : ∀ db ∈ s.passed, db ∈ s'.passed
  narrow : Narrow s.db → Wide s' ∨ Narrow s'.db

namespace Watched

variable {s s' : Logged}

theorem wide (h : Watched s s') (hw : Wide s) : Wide s' := by
  obtain ⟨db, hdb, hn⟩ := hw
  exact ⟨db, h.passed db hdb, hn⟩

instance : Std.Refl Watched := ⟨fun _ => ⟨fun _ => id, .inr⟩⟩

instance : IsTrans Logged Watched := ⟨fun _ _ _ h h' => {
  passed db hdb := h'.passed db (h.passed db hdb)
  narrow hn := by
    rcases h.narrow hn with hw | hn
    · exact .inl (h'.wide hw)
    · exact h'.narrow hn }⟩

theorem of_tables (h : tables s' = tables s) : Watched s s' := by
  have hdb : s'.db = s.db := congrArg Prod.fst h
  have hpassed : s'.passed = s.passed := congrArg Prod.snd h
  exact ⟨fun db hdb' => hpassed ▸ hdb', fun hn => .inr (hdb ▸ hn)⟩

end Watched

theorem watched_change (accepted : Bool) (f : Database → Database) :
    Keeps Watched (change accepted f) := by
  intro s
  rcases change_tables accepted f s with ⟨-, -, ht⟩ | ⟨-, ht⟩
  · have hdb : (after (change accepted f) s).db = f s.db := congrArg Prod.fst ht
    have hpassed : (after (change accepted f) s).passed = f s.db :: s.passed :=
      congrArg Prod.snd ht
    refine ⟨fun db hdb' => ?_, fun _ => ?_⟩
    · rw [hpassed]
      exact List.mem_cons_of_mem _ hdb'
    · by_cases hn : Narrow (f s.db)
      · exact .inr (hdb ▸ hn)
      · exact .inl ⟨f s.db, hpassed ▸ List.mem_cons_self, hn⟩
  · exact .of_tables ht

theorem watched_scans : Scans Watched where
  queries h s := .of_tables (h.scan s)
  reading s := .of_tables (quiet_reading s)
  saveDir d := Keeps.get.bind fun _ => (watched_change _ _).bind fun _ => Keeps.pure _
  saveSong song := Keeps.get.bind fun _ => (watched_change _ _).bind fun _ => Keeps.pure _
  destroySong song := by
    unfold Song.destroy
    split
    · exact (watched_change _ _).bind fun _ => Keeps.change fun _ => .of_tables rfl
    · exact Keeps.pure _
  destroyRow d := by
    unfold MusicDir.destroyRow
    split
    · exact watched_change _ _
    · exact Keeps.pure _

/-- The parts of a sequence that returns without a wide state. -/
theorem bind_narrow {α β : Type} {x : Scan α} {f : α → Scan β} {s : Logged} {b : β}
    (hf : ∀ a, Keeps Watched (f a)) (ho : outcome (x >>= f) s = .ok b)
    (hw : ¬ Wide (after (x >>= f) s)) :
    ∃ a, outcome x s = .ok a ∧ ¬ Wide (after x s) ∧ outcome (f a) (after x s) = .ok b ∧
      after (x >>= f) s = after (f a) (after x s) := by
  obtain ⟨a, ha, hb⟩ := bind_eq_ok.mp ho
  have hafter : after (x >>= f) s = after (f a) (after x s) := after_bind_ok ha _
  rw [hafter] at hw
  exact ⟨a, ha, fun hx => hw ((hf a _).wide hx), hb, hafter⟩

/-! ## What is done below a directory -/

/-- What is done below the directory `p` only. -/
structure Enclosed (p : Int) (v v' : Database × List Database) : Prop extends Tended p v v' where
  newDirs : ∀ r ∈ v'.1.musicDirs.rows, r ∈ v.1.musicDirs.rows ∨ Below v'.1.musicDirs p r.1
  songs : ∀ r ∈ v.1.songs.rows, r.2.dirId ∉ subtree v.1.musicDirs p → r ∈ v'.1.songs.rows
  newSongs : ∀ r ∈ v'.1.songs.rows,
    r ∈ v.1.songs.rows ∨ r.2.dirId ∈ subtree v'.1.musicDirs p

/-- Ancestors of one directory lie on one line. -/
theorem Below.linear {t : Table DirRow} {c x y : Int} (hc : Below t c y) (hx : Below t x y) :
    c = x ∨ Below t c x ∨ Below t x c := by
  induction hc using Relation.TransGen.head_induction_on with
  | single hyc =>
    obtain ⟨z, hyz, hzx⟩ := Relation.TransGen.head'_iff.mp hx
    obtain rfl := hyc.unique hyz
    rcases Relation.reflTransGen_iff_eq_or_transGen.mp hzx with rfl | hb
    · exact .inl rfl
    · exact .inr (.inr hb)
  | head hyz hb ih =>
    obtain ⟨z', hyz', hzx⟩ := Relation.TransGen.head'_iff.mp hx
    obtain rfl := hyz.unique hyz'
    rcases Relation.reflTransGen_iff_eq_or_transGen.mp hzx with rfl | hx
    · exact .inr (.inl hb)
    · exact ih hx

theorem mem_subtree_of_child {t : Table DirRow} {p x y : Int} (h : IsChild t x y)
    (hx : x ∈ subtree t p) (hne : x ≠ p) : y ∈ subtree t p := by
  obtain ⟨row, hr, rfl⟩ := h
  exact mem_subtree_parent hr hx hne

/-- What lies below a child lies below its parent. -/
theorem Below.of_child {t : Table DirRow} {c p y : Int} (hc : IsChild t c p)
    (hy : y ∈ subtree t c) : Below t p y := by
  rcases hy with rfl | hb
  · exact .single hc
  · exact hb.tail hc

/-- A child of what lies below a directory. -/
theorem Below.child {t : Table DirRow} {x y z : Int} (hz : IsChild t z y) (hy : y ∈ subtree t x) :
    Below t x z := by
  rcases hy with rfl | hb
  · exact .single hz
  · exact hb.head hz

/-- A directory does not lie below its child. -/
theorem Forest.parent_not_mem {t : Table DirRow} (hf : Forest t) {c p : Int}
    (hc : IsChild t c p) : p ∉ subtree t c := by
  rintro (heq | hb)
  · exact hf.not_below_self c (.single (heq ▸ hc))
  · exact hf.not_below_self c (hb.head hc)

namespace Enclosed

variable {p : Int} {v v' v'' : Database × List Database}

theorem refl (h : Sound v.1) : Enclosed p v v where
  toTended := .refl h
  newDirs _ hr := .inl hr
  songs _ hr _ := hr
  newSongs _ hr := .inl hr

/-- A directory below `p` that still has a row lies below `p` still. -/
theorem below (hv : Sound v.1) (h : Enclosed p v v') {x : Int} (hx : Below v.1.musicDirs p x)
    {row : DirRow} (hr : (x, row) ∈ v'.1.musicDirs.rows) : Below v'.1.musicDirs p x := by
  induction hx using Relation.TransGen.head_induction_on generalizing row with
  | @single x hxp =>
    obtain ⟨row', hr', hp⟩ := hxp
    rcases h.newDirs _ hr with hold | hb
    · obtain rfl := Placed.row_unique hr' hold
      exact .single ⟨_, hr, hp⟩
    · exact hb
  | @head x y hxy hy ih =>
    obtain ⟨row', hr', hp⟩ := hxy
    rcases h.newDirs _ hr with hold | hb
    · obtain rfl := Placed.row_unique hr' hold
      have hchild : IsChild v'.1.musicDirs x y := ⟨_, hr, hp⟩
      have hy0 : y ≠ 0 := by
        obtain ⟨z, ⟨row'', hr'', -⟩, -⟩ := Relation.TransGen.head'_iff.mp hy
        exact (hv.dirs _ hr'').ne'
      obtain ⟨rowy, hry⟩ := h.sound.linked.dirs.parent hchild hy0
      exact (ih hry).head hchild
    · exact hb

theorem trans (hv : Sound v.1) (h : Enclosed p v v') (h' : Enclosed p v' v'') :
    Enclosed p v v'' where
  toTended := h.toTended.trans hv h'.toTended
  newDirs r hr := by
    rcases h'.newDirs r hr with hr' | hb
    · rcases h.newDirs r hr' with hold | hb
      · exact .inl hold
      · exact .inr (h'.below h.sound hb hr)
    · exact .inr hb
  songs r hr hout := by
    refine h'.songs r (h.songs r hr hout) fun hin => ?_
    obtain ⟨row, hrow⟩ := hv.linked.songs r hr
    rcases hin with heq | hb
    · exact hout (.inl heq)
    · exact h.toTended.not_below hv hrow (fun hb => hout (.inr hb)) hb
  newSongs r hr := by
    rcases h'.newSongs r hr with hr' | hin
    · rcases h.newSongs r hr' with hold | hin
      · exact .inl hold
      · refine .inr ?_
        obtain ⟨row, hrow⟩ := h'.sound.linked.songs r hr
        exact hin.imp_right fun hb => h'.below h.sound hb hrow
    · exact .inr hin

/-- What is done below a child is done below its parent. -/
theorem of_child (hv : Sound v.1) {c : Int} (hc : IsChild v.1.musicDirs c p)
    (h : Enclosed c v v') : Enclosed p v v' where
  toTended := h.toTended.of_child hc
  newDirs r hr := (h.newDirs r hr).imp_right fun hb => hb.tail (h.toTended.child hv hc hc)
  songs r hr hout := h.songs r hr fun hin => hout (.inr (.of_child hc hin))
  newSongs r hr := (h.newSongs r hr).imp_right fun hin =>
    .inr (.of_child (h.toTended.child hv hc hc) hin)

/-- The children of the parent are as before. -/
theorem child_iff (hv : Sound v.1) {c : Int} (hc : IsChild v.1.musicDirs c p)
    (h : Enclosed c v v') (r : Int × DirRow) :
    (r ∈ v'.1.musicDirs.rows ∧ r.2.parentId = p) ↔
      (r ∈ v.1.musicDirs.rows ∧ r.2.parentId = p) := by
  constructor
  · rintro ⟨hr, hp⟩
    refine ⟨(h.newDirs r hr).resolve_right ?_, hp⟩
    exact h.sound.linked.dirs.not_below_sibling (h.toTended.child hv hc hc) ⟨r.2, hr, hp⟩
  · rintro ⟨hr, hp⟩
    exact ⟨h.spared r hr (hv.linked.dirs.not_below_sibling hc ⟨r.2, hr, hp⟩), hp⟩

/-- The songs of the parent are as before. -/
theorem song_iff (hv : Sound v.1) {c : Int} (hc : IsChild v.1.musicDirs c p)
    (h : Enclosed c v v') (r : Int × SongRow) :
    (r ∈ v'.1.songs.rows ∧ r.2.dirId = p) ↔ (r ∈ v.1.songs.rows ∧ r.2.dirId = p) := by
  constructor
  · rintro ⟨hr, rfl⟩
    refine ⟨(h.newSongs r hr).resolve_right ?_, rfl⟩
    exact h.sound.linked.dirs.parent_not_mem (h.toTended.child hv hc hc)
  · rintro ⟨hr, rfl⟩
    exact ⟨h.songs r hr (hv.linked.dirs.parent_not_mem hc), rfl⟩

end Enclosed

/-- What lies in the directory `x` and below it is the same in both. -/
structure SameBelow (x : Int) (db db' : Database) : Prop where
  dirs : ∀ r : Int × DirRow, r.2.parentId ∈ subtree db.musicDirs x →
    (r ∈ db'.musicDirs.rows ↔ r ∈ db.musicDirs.rows)
  songs : ∀ r : Int × SongRow, r.2.dirId ∈ subtree db.musicDirs x →
    (r ∈ db'.songs.rows ↔ r ∈ db.songs.rows)

/-- Nothing lies below two directories of which neither lies below the other. -/
theorem subtree_disjoint {t : Table DirRow} {c x y : Int} (hne : x ≠ c) (hxc : ¬ Below t c x)
    (hcx : ¬ Below t x c) (hy : y ∈ subtree t x) : y ∉ subtree t c := by
  rintro (rfl | hb)
  · rcases hy with heq | hb
    · exact hne heq.symm
    · exact hcx hb
  · rcases hy with rfl | hb'
    · exact hxc hb
    · rcases hb'.linear hb with heq | hb | hb
      · exact hne heq
      · exact hcx hb
      · exact hxc hb

/-- What is done below one directory leaves what lies below another, if neither lies below the
other. -/
theorem Enclosed.sameBelow {c x : Int} {v v' : Database × List Database} (hv : Sound v.1)
    (h : Enclosed c v v') (hx : HasDir x v.1) (hne : x ≠ c) (hxc : ¬ Below v.1.musicDirs c x)
    (hcx : ¬ Below v.1.musicDirs x c) : SameBelow x v.1 v'.1 := by
  -- a directory in the subtree of `x` is not in that of `c`, before and after
  have hbefore : ∀ y ∈ subtree v.1.musicDirs x, y ∉ subtree v.1.musicDirs c :=
    fun y hy => subtree_disjoint hne hxc hcx hy
  have hrow : ∀ y ∈ subtree v.1.musicDirs x, HasDir y v.1 := by
    rintro y (rfl | hb)
    · exact hx
    · obtain ⟨z, ⟨row, hr, -⟩, -⟩ := Relation.TransGen.head'_iff.mp hb
      exact ⟨row, hr⟩
  have hafter : ∀ y ∈ subtree v.1.musicDirs x, y ∉ subtree v'.1.musicDirs c := by
    rintro y hy (rfl | hb)
    · exact hbefore _ hy (.inl rfl)
    · obtain ⟨row, hr⟩ := hrow y hy
      exact h.toTended.not_below hv hr (fun hb => hbefore y hy (.inr hb)) hb
  constructor
  · intro r hr
    constructor
    · intro hmem
      refine (h.newDirs r hmem).resolve_right fun hb => hafter _ hr ?_
      exact mem_subtree_of_child ⟨r.2, hmem, rfl⟩ (.inr hb) fun heq =>
        h.sound.linked.dirs.not_below_self _ (heq ▸ hb)
    · intro hmem
      refine h.spared r hmem fun hb => hbefore _ hr ?_
      exact mem_subtree_of_child ⟨r.2, hmem, rfl⟩ (.inr hb) fun heq =>
        hv.linked.dirs.not_below_self _ (heq ▸ hb)
  · intro r hr
    exact ⟨fun hmem => (h.newSongs r hmem).resolve_right (hafter _ hr),
      fun hmem => h.songs r hmem (hbefore _ hr)⟩

end Spinny

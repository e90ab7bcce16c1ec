import Spinny.Answers
import Spinny.Destroy
import Spinny.Handlers.Browse
import Spinny.Lib.Walk

/-!
# Expanding the tree of the directories

The page asks for the root and then for every node that is no leaf. The answer for the root opens
a single root directory and leaves out the songs that lie in it, and no other answer lists them.

* `handle_lists`: the answer for a node is the text of `nodes`.
* `opened_isTree`: what a page comes upon is a tree.
* `expands_iff`: when a page that has expanded everything has each song once.
-/

namespace Handlers.Tree

open Bytes Boost Spinny Sqlite Ews Proc

variable [Affinity]

/-! ## The nodes of an answer -/

/-- What `insert` writes. -/
structure Node where
  id : Int
  label : Bytes
  numChildren : Nat
  type : Bytes

/-- The text of a node. -/
def Node.text (before : Bytes) (n : Node) : Bytes :=
  before ++ lit "\n    \x7b\"id\":" ++ showInt n.id ++ lit ",\"text\":\"" ++ escapeQuotes n.label ++
    lit "\",\"leaf\":" ++ (if n.numChildren ≠ 0 then lit "false" else lit "true") ++
    lit ",\"cls\":\"" ++ n.type ++ lit "\" \x7d"

/-- The node of a song. -/
def songNode (song : Spinny.Song) : Node :=
  ⟨song.dbId, if song.track ≠ 0 then showInt song.track ++ lit "-" ++ song.title else song.title,
    0, lit "song"⟩

/-- The node of a directory. -/
def dirNode (db : Database) (md : MusicDir) : Node :=
  ⟨md.dbId, md.name, db.musicDirs.count (fun _ c => c.parentId == md.dbId) +
    db.songs.count fun _ s => s.dirId == md.dbId, lit "dir"⟩

/-- The directories that are listed for a node: at the root those in a single root. -/
def shownDirs (db : Database) (dirId : Int) : List MusicDir :=
  match MusicDir.childList db dirId with
  | [root] => if dirId = 0 then MusicDir.childList db root.dbId else [root]
  | rs => rs

/-- The songs that are listed for a node. -/
def shownSongs (db : Database) (dirId : Int) : List Spinny.Song :=
  if dirId = 0 then [] else MusicDir.songList db dirId

/-- What is listed for a node. -/
def nodes (db : Database) (dirId : Int) : List Node :=
  (shownDirs db dirId).map (dirNode db) ++ (shownSongs db dirId).map songNode

/-- The text of nodes. -/
def nodesText (used : Bool) : List Node → Bytes := eachText Node.text used

section

variable {w : World}

theorem insertSongs_returns (used : Bool) (songs : List Spinny.Song) :
    Returns (putEach insertSong used songs) w (used || !songs.isEmpty)
      (w.wrote (nodesText used (songs.map songNode))) := by
  rw [nodesText, ← eachText_map]
  refine putEach_returns used fun t b song _ => ?_
  rw [← World.wrote_wrote]
  exact put_returns _ _

theorem insertDirs_returns (hs : w.stale = false) (used : Bool) (dirs : List MusicDir) :
    Returns (putEach insertDir used dirs) w (used || !dirs.isEmpty)
      (w.wrote (nodesText used (dirs.map (dirNode w.db)))) := by
  rw [nodesText, ← eachText_map]
  refine putEach_returns used fun t b md _ => ?_
  have hst : (w.wrote t).stale = false := hs
  refine (execSelect_returns hst _).bind ((execSelect_returns hst _).bind ?_)
  rw [← World.wrote_wrote]
  exact put_returns _ _

/-- A request for the children of a node. -/
structure AsksDir (req : Request) (dirId : Int) : Prop where
  tree : req.u1 = lit "tree"
  dir : req.u2 = lit "dir"
  node : (req.varibles[lit "node"]?.getD []).head? = some (showInt dirId)

/-- The world after an answer of nodes. -/
def answered (w : World) (nodes : List Node) : World :=
  let w := w.wrote (lit "[" ++ nodesText false nodes ++ lit "\n]")
  { w with rep := w.rep.setBasicHeaders (lit "json") }

theorem idValue_returns {req : Request} {dirId : Int} (h : AsksDir req dirId)
    (hlow : -2 ^ 63 ≤ dirId) (hhigh : dirId < 2 ^ 63) (w : World) :
    Returns (idValue req (lit "node")) w dirId w := by
  have hval : req.singleValue toId 0 (lit "node") = some dirId := by
    rw [Request.singleValue, h.node]
    exact lexicalCastSigned_showInt hlow hhigh
  rw [idValue, hval, cast_some]
  exact Returns.pure _ _

theorem dir_returns {req : Request} {dirId : Int} (h : AsksDir req dirId)
    (hlow : -2 ^ 63 ≤ dirId) (hhigh : dirId < 2 ^ 63) (hs : w.stale = false)
    (hdir : dirId = 0 ∨ ∃ row, (dirId, row) ∈ w.db.musicDirs.rows) :
    Returns (dir req) w () (w.wrote (nodesText false (nodes w.db dirId))) := by
  have hdirs : Returns (match MusicDir.childList w.db dirId with
      | [root] => if dirId = 0 then root.children else pure (MusicDir.childList w.db dirId)
      | rs => pure rs) w (shownDirs w.db dirId) w := by
    unfold shownDirs
    rcases hl : MusicDir.childList w.db dirId with _ | ⟨root, _ | ⟨md, rest⟩⟩
    · exact Returns.pure _ _
    · dsimp only
      by_cases hc : dirId = 0
      · rw [if_pos hc, if_pos hc]
        exact listRows_returns hs _
      · rw [if_neg hc, if_neg hc]
        exact Returns.pure _ _
    · exact Returns.pure _ _
  unfold dir
  refine (idValue_returns h hlow hhigh w).bind ((listRows_returns hs _).bind (hdirs.bind
    ((insertDirs_returns hs false _).bind ?_)))
  by_cases hc : dirId = 0
  · rw [if_neg (not_not.mpr hc)]
    have hnodes : nodes w.db dirId = (shownDirs w.db dirId).map (dirNode w.db) := by
      rw [nodes, shownSongs, if_pos hc, List.map_nil, List.append_nil]
    rw [hnodes]
    exact Returns.pure _ _
  · rw [if_pos hc]
    obtain ⟨row, hrow⟩ := hdir.resolve_left hc
    have hsongs : shownSongs w.db dirId = MusicDir.songList w.db dirId := if_neg hc
    have hst : (w.wrote (nodesText false ((shownDirs w.db dirId).map (dirNode w.db)))).stale =
        false := hs
    refine (loadRow_returns hst Database.musicDirs MusicDir.ofRow hrow).bind
      ((listRows_returns hst _).bind ((insertSongs_returns _ _).bind ?_))
    rw [World.wrote_wrote, nodes, nodesText, eachText_append, List.isEmpty_map, hsongs]
    exact Returns.pure _ _

/-- The answer for a node that exists is the text of its nodes. -/
theorem handle_lists {req : Request} {dirId : Int} (h : AsksDir req dirId)
    (hlow : -2 ^ 63 ≤ dirId) (hhigh : dirId < 2 ^ 63) (hs : w.stale = false)
    (hdir : dirId = 0 ∨ ∃ row, (dirId, row) ∈ w.db.musicDirs.rows) :
    Returns (handle req) w .stop (answered w (nodes w.db dirId)) := by
  have hst : (w.wrote (lit "[")).stale = false := hs
  unfold handle
  rw [if_neg (not_not.mpr h.tree)]
  have hanswer : Returns (answer req) (w.wrote (lit "[")) ()
      ((w.wrote (lit "[")).wrote (nodesText false (nodes w.db dirId))) := by
    rw [answer, if_pos h.dir]
    exact dir_returns h hlow hhigh hst hdir
  refine (put_returns w _).bind (hanswer.bind ((put_returns _ _).bind ?_))
  rw [World.wrote_wrote, World.wrote_wrote]
  exact ⟨rfl, rfl⟩

end

/-! ## The tree a page comes upon -/

/-- The directories among the nodes of an answer that are no leaves. -/
def opened (db : Database) (dirId : Int) : List Int :=
  ((nodes db dirId).filter fun n => n.numChildren != 0).map Node.id

/-- The only directory without a parent. -/
def OnlyRoot (db : Database) (root : Int) : Prop := ∀ x, IsChild db.musicDirs x 0 ↔ x = root

/-- The directory is listed for the node. -/
def Shown (db : Database) (x dirId : Int) : Prop :=
  (dirId = 0 ∧ ∃ root, OnlyRoot db root ∧ IsChild db.musicDirs x root) ∨
    ¬ (dirId = 0 ∧ ∃ root, OnlyRoot db root) ∧ IsChild db.musicDirs x dirId

/-- Something lies in the directory. -/
def Filled (db : Database) (x : Int) : Prop :=
  (∃ c, IsChild db.musicDirs c x) ∨ ∃ s ∈ db.songs.rows, s.2.dirId = x

section

variable {db : Database} {x dirId root : Int}

theorem mem_childList_iff : (∃ md ∈ MusicDir.childList db dirId, md.dbId = x) ↔
    IsChild db.musicDirs x dirId := by
  constructor
  · rintro ⟨md, hmd, rfl⟩
    obtain ⟨row, hr, hp, -⟩ := MusicDir.mem_childList.mp hmd
    exact ⟨row, hr, hp⟩
  · rintro ⟨row, hr, hp⟩
    exact ⟨.ofRow x row, MusicDir.mem_childList.mpr ⟨row, hr, hp, rfl⟩, rfl⟩

/-- The rows below one parent have different rowids. -/
theorem childList_nodup (db : Database) (dirId : Int) :
    ((MusicDir.childList db dirId).map MusicDir.dbId).Nodup := by
  have hperm : ((MusicDir.childList db dirId).map MusicDir.dbId).Perm
      ((db.musicDirs.select fun _ d => d.parentId == dirId).map Prod.fst) := by
    refine ((List.mergeSort_perm _ _).map _).trans (.of_eq ?_)
    rw [List.map_map]
    rfl
  exact hperm.nodup_iff.mpr (db.musicDirs.nodup_rowids.sublist (List.filter_sublist.map _))

theorem onlyRoot_iff : OnlyRoot db root ↔ ∃ md, MusicDir.childList db 0 = [md] ∧ md.dbId = root := by
  constructor
  · intro h
    have hmem : ∀ y, y ∈ (MusicDir.childList db 0).map MusicDir.dbId ↔ y ∈ [root] := fun y => by
      rw [List.mem_map, mem_childList_iff, h y, List.mem_singleton]
    have hperm := (List.perm_ext_iff_of_nodup (childList_nodup db 0)
      (List.nodup_singleton root)).mpr hmem
    obtain ⟨md, hmd, hid⟩ := List.map_eq_singleton_iff.mp (List.perm_singleton.mp hperm)
    exact ⟨md, hmd, hid⟩
  · rintro ⟨md, hmd, rfl⟩ y
    rw [← mem_childList_iff, hmd]
    simp [eq_comm]

theorem OnlyRoot.unique {r : Int} (h : OnlyRoot db root) (h' : OnlyRoot db r) : r = root :=
  (h r).mp ((h' r).mpr rfl)

/-- The answer at the root, where a single directory is. -/
theorem shownDirs_single (h : OnlyRoot db root) :
    shownDirs db 0 = MusicDir.childList db root := by
  obtain ⟨md, hmd, rfl⟩ := onlyRoot_iff.mp h
  rw [shownDirs, hmd]
  exact if_pos rfl

/-- Every other answer. -/
theorem shownDirs_plain (h : ¬ (dirId = 0 ∧ ∃ root, OnlyRoot db root)) :
    shownDirs db dirId = MusicDir.childList db dirId := by
  unfold shownDirs
  split
  · next md hmd =>
    by_cases hc : dirId = 0
    · subst hc
      exact absurd ⟨rfl, _, onlyRoot_iff.mpr ⟨md, hmd, rfl⟩⟩ h
    · rw [if_neg hc, hmd]
  · rfl

theorem mem_shownDirs_iff : (∃ md ∈ shownDirs db dirId, md.dbId = x) ↔ Shown db x dirId := by
  by_cases hc : dirId = 0 ∧ ∃ root, OnlyRoot db root
  · obtain ⟨rfl, root, hroot⟩ := hc
    rw [shownDirs_single hroot, mem_childList_iff]
    constructor
    · exact fun h => .inl ⟨rfl, root, hroot, h⟩
    · rintro (⟨-, r, hr, h⟩ | ⟨h, -⟩)
      · rwa [← hroot.unique hr]
      · exact absurd ⟨rfl, root, hroot⟩ h
  · rw [shownDirs_plain hc, mem_childList_iff]
    constructor
    · exact fun h => .inr ⟨hc, h⟩
    · rintro (⟨h, r, hr, -⟩ | ⟨-, h⟩)
      · exact absurd ⟨h, r, hr⟩ hc
      · exact h

theorem shownDirs_nodup (db : Database) (dirId : Int) :
    ((shownDirs db dirId).map MusicDir.dbId).Nodup := by
  by_cases hc : dirId = 0 ∧ ∃ root, OnlyRoot db root
  · obtain ⟨rfl, root, hroot⟩ := hc
    rw [shownDirs_single hroot]
    exact childList_nodup db root
  · rw [shownDirs_plain hc]
    exact childList_nodup db dirId

omit [Affinity] in
theorem count_ne_zero {α : Type} {t : Table α} {p : Int → α → Bool} :
    t.count p ≠ 0 ↔ ∃ r ∈ t.rows, p r.1 r.2 = true := by
  rw [Table.count, ← Nat.pos_iff_ne_zero, List.length_pos_iff_exists_mem]
  simp only [Table.mem_select]

theorem dirNode_filled (md : MusicDir) :
    (dirNode db md).numChildren ≠ 0 ↔ Filled db md.dbId := by
  have hsum : (dirNode db md).numChildren ≠ 0 ↔
      db.musicDirs.count (fun _ c => c.parentId == md.dbId) ≠ 0 ∨
        db.songs.count (fun _ s => s.dirId == md.dbId) ≠ 0 := by
    simp only [dirNode]
    omega
  rw [hsum, count_ne_zero, count_ne_zero, Filled]
  simp only [beq_iff_eq, IsChild, Prod.exists]

theorem opened_eq (db : Database) (dirId : Int) :
    opened db dirId = ((shownDirs db dirId).filter fun md =>
      (dirNode db md).numChildren != 0).map MusicDir.dbId := by
  have hsongs : ((shownSongs db dirId).map songNode).filter (fun n => n.numChildren != 0) = [] := by
    refine List.filter_eq_nil_iff.mpr fun n hn => ?_
    obtain ⟨song, -, rfl⟩ := List.mem_map.mp hn
    simp [songNode]
  rw [opened, nodes, List.filter_append, hsongs, List.append_nil, List.filter_map, List.map_map]
  rfl

theorem mem_opened : x ∈ opened db dirId ↔ Shown db x dirId ∧ Filled db x := by
  rw [opened_eq, ← mem_shownDirs_iff]
  simp only [List.mem_map, List.mem_filter, bne_iff_ne]
  constructor
  · rintro ⟨md, ⟨hmd, hne⟩, rfl⟩
    exact ⟨⟨md, hmd, rfl⟩, (dirNode_filled md).mp hne⟩
  · rintro ⟨⟨md, hmd, rfl⟩, hf⟩
    exact ⟨md, ⟨hmd, (dirNode_filled md).mpr hf⟩, rfl⟩

theorem opened_nodup (db : Database) (dirId : Int) : (opened db dirId).Nodup := by
  rw [opened_eq]
  exact (shownDirs_nodup db dirId).sublist (List.filter_sublist.map _)

/-! ## Complete expansions -/

theorem Shown.isChild (h : Shown db x dirId) : ∃ p, IsChild db.musicDirs x p := by
  rcases h with ⟨-, root, -, h⟩ | ⟨-, h⟩
  · exact ⟨root, h⟩
  · exact ⟨dirId, h⟩

/-- What a page comes upon is the root or has a row. -/
theorem reaches_row (h : Walk.Reaches (opened db) 0 x) :
    x = 0 ∨ ∃ row, (x, row) ∈ db.musicDirs.rows := by
  cases h with
  | refl => exact .inl rfl
  | tail _ hx =>
    obtain ⟨p, row, hr, -⟩ := (mem_opened.mp hx).1.isChild
    exact .inr ⟨row, hr⟩

theorem ne_zero_of_isChild (hf : Forest db.musicDirs) {p : Int}
    (h : IsChild db.musicDirs x p) : x ≠ 0 := by
  obtain ⟨row, hr, -⟩ := h
  exact (hf _ hr).1

/-- A single root directory is not a node that the page could ask for. -/
theorem OnlyRoot.not_reaches (hf : Forest db.musicDirs) (h : OnlyRoot db root) :
    ¬ Walk.Reaches (opened db) 0 root := by
  have hroot : IsChild db.musicDirs root 0 := (h root).mpr rfl
  intro hr
  obtain heq | ⟨k, -, hk⟩ := Relation.ReflTransGen.cases_tail hr
  · exact ne_zero_of_isChild hf hroot heq
  · rcases (mem_opened.mp hk).1 with ⟨-, r, hr', hchild⟩ | ⟨hk', hchild⟩
    · obtain rfl := h.unique hr'
      exact hf.not_below_self _ (.single hchild)
    · exact hk' ⟨hchild.unique hroot, root, h⟩

/-- No directory is listed for two nodes, and the root for none. -/
theorem opened_isTree (hf : Forest db.musicDirs) : Walk.IsTree (opened db) 0 where
  nodup k _ := opened_nodup db k
  parent j k x hj hk hxj hxk := by
    rcases (mem_opened.mp hxj).1 with ⟨rfl, r, hr, hxr⟩ | ⟨hj', hxj⟩ <;>
      rcases (mem_opened.mp hxk).1 with ⟨rfl, r', hr', hxr'⟩ | ⟨hk', hxk⟩
    · rfl
    · obtain rfl := hxr.unique hxk
      exact absurd hk (hr.not_reaches hf)
    · obtain rfl := hxr'.unique hxj
      exact absurd hj (hr'.not_reaches hf)
    · exact hxj.unique hxk
  root k _ h := by
    obtain ⟨p, hp⟩ := (mem_opened.mp h).1.isChild
    exact ne_zero_of_isChild hf hp rfl

/-- The page comes upon every directory with something in it but a single root. -/
theorem reaches_filled {names : List Bytes} (hx : Placed db.musicDirs x names)
    (hfilled : Filled db x) (hroot : ¬ OnlyRoot db x) : Walk.Reaches (opened db) 0 x := by
  induction hx with
  | @root id name hr =>
    refine .single (mem_opened.mpr ⟨.inr ⟨?_, _, hr, rfl⟩, hfilled⟩)
    rintro ⟨-, root, honly⟩
    obtain rfl := (honly id).mp ⟨_, hr, rfl⟩
    exact hroot honly
  | @child id parentId name names hr hp _ ih =>
    have hchild : IsChild db.musicDirs id parentId := ⟨_, hr, rfl⟩
    by_cases honly : OnlyRoot db parentId
    · exact .single (mem_opened.mpr ⟨.inl ⟨rfl, _, honly, hchild⟩, hfilled⟩)
    · exact (ih (.inl ⟨id, hchild⟩) honly).tail
        (mem_opened.mpr ⟨.inr ⟨fun h => hp h.1, hchild⟩, hfilled⟩)

/-- The rowids of the songs among the nodes of the answers. -/
def listedSongs (db : Database) (asked : List Int) : List Int :=
  ((asked.flatMap (nodes db)).filter fun n => n.type == lit "song").map Node.id

theorem listedSongs_eq (db : Database) (asked : List Int) :
    listedSongs db asked = asked.flatMap fun dirId =>
      (shownSongs db dirId).map Spinny.Song.dbId := by
  have hnodes : ∀ dirId, ((nodes db dirId).filter fun n => n.type == lit "song").map Node.id =
      (shownSongs db dirId).map Spinny.Song.dbId := by
    intro dirId
    have hdirs : ((shownDirs db dirId).map (dirNode db)).filter
        (fun n => n.type == lit "song") = [] := by
      refine List.filter_eq_nil_iff.mpr fun n hn => ?_
      obtain ⟨md, -, rfl⟩ := List.mem_map.mp hn
      simp only [dirNode]
      decide
    have hsongs : ((shownSongs db dirId).map songNode).filter
        (fun n => n.type == lit "song") = (shownSongs db dirId).map songNode := by
      refine List.filter_eq_self.mpr fun n hn => ?_
      obtain ⟨song, -, rfl⟩ := List.mem_map.mp hn
      exact beq_self_eq_true _
    rw [nodes, List.filter_append, hdirs, hsongs, List.nil_append, List.map_map]
    rfl
  rw [listedSongs, List.filter_flatMap, List.map_flatMap]
  exact congrArg (asked.flatMap ·) (funext hnodes)

theorem mem_listedSongs {asked : List Int} {id : Int} : id ∈ listedSongs db asked ↔
    ∃ row, (id, row) ∈ db.songs.rows ∧ row.dirId ∈ asked ∧ row.dirId ≠ 0 := by
  rw [listedSongs_eq]
  simp only [List.mem_flatMap, List.mem_map, shownSongs]
  constructor
  · rintro ⟨dirId, hasked, song, hsong, rfl⟩
    split at hsong
    · simp at hsong
    · next hne =>
      obtain ⟨row, hr, rfl, -⟩ := MusicDir.mem_songList.mp hsong
      exact ⟨row, hr, hasked, hne⟩
  · rintro ⟨row, hr, hasked, hne⟩
    refine ⟨row.dirId, hasked, .ofRow id row, ?_, rfl⟩
    rw [if_neg hne]
    exact MusicDir.mem_songList.mpr ⟨row, hr, rfl, rfl⟩

theorem songList_nodup (db : Database) (dirId : Int) :
    ((MusicDir.songList db dirId).map Spinny.Song.dbId).Nodup := by
  have hperm : ((MusicDir.songList db dirId).map Spinny.Song.dbId).Perm
      ((db.songs.select fun _ s => s.dirId == dirId).map Prod.fst) := by
    rw [MusicDir.songList, List.map_map]
    exact ((List.mergeSort_perm _ _).trans (List.mergeSort_perm _ _)).map _
  exact hperm.nodup_iff.mpr (db.songs.nodup_rowids.sublist (List.filter_sublist.map _))

/-- The answers for different nodes list different songs. -/
theorem listedSongs_nodup {asked : List Int} (h : asked.Nodup) : (listedSongs db asked).Nodup := by
  rw [listedSongs_eq, List.nodup_flatMap]
  refine ⟨fun dirId _ => ?_, h.imp fun {j k} hne => ?_⟩
  · unfold shownSongs
    split
    · exact List.nodup_nil
    · exact songList_nodup db dirId
  · intro id hj hk
    have hj' : id ∈ listedSongs db [j] := by
      rw [listedSongs_eq, List.flatMap_singleton]
      exact hj
    have hk' : id ∈ listedSongs db [k] := by
      rw [listedSongs_eq, List.flatMap_singleton]
      exact hk
    obtain ⟨row, hr, hrj, -⟩ := mem_listedSongs.mp hj'
    obtain ⟨row', hr', hrk, -⟩ := mem_listedSongs.mp hk'
    have hrow := Table.lookup_eq_some.mpr hr
    rw [Table.lookup_eq_some.mpr hr'] at hrow
    obtain rfl := Option.some.inj hrow
    exact hne ((List.mem_singleton.mp hrj).symm.trans (List.mem_singleton.mp hrk))

end

/-- What expanding the tree gives: every request is answered with the nodes, the expansion ends,
and when nothing is left to ask for each song of the library has been listed once. -/
structure Expands (w : World) : Prop where
  answers : ∀ walk, Walk.From (opened w.db) 0 walk → ∀ dirId ∈ walk.pending, ∀ req,
    AsksDir req dirId → ∀ rep, Returns (handle req) { w with rep } .stop
      (answered { w with rep } (nodes w.db dirId))
  ends : ∀ walk, Walk.From (opened w.db) 0 walk →
    walk.visited.length ≤ w.db.musicDirs.rows.length + 1
  lists : ∀ asked, Walk.From (opened w.db) 0 ⟨asked, []⟩ →
    (listedSongs w.db asked).Perm (w.db.songs.rows.map Prod.fst)

/-- The songs of a forest are listed once each, unless one lies directly in a directory that is
the only root. -/
theorem expands_iff {w : World} (hs : w.stale = false) (hlinked : Linked w.db)
    (hids : ∀ r ∈ w.db.musicDirs.rows, -2 ^ 63 ≤ r.1 ∧ r.1 < 2 ^ 63) :
    Expands w ↔ ∀ root, OnlyRoot w.db root → ∀ s ∈ w.db.songs.rows, s.2.dirId ≠ root := by
  have htree := opened_isTree hlinked.dirs
  have hall : ∀ x, Walk.Reaches (opened w.db) 0 x → x ∈ 0 :: w.db.musicDirs.rows.map Prod.fst := by
    intro x hx
    rcases reaches_row hx with rfl | ⟨row, hr⟩
    · exact List.mem_cons_self ..
    · exact List.mem_cons_of_mem _ (List.mem_map_of_mem hr)
  constructor
  · rintro h root honly ⟨id, row⟩ hsong hdir
    obtain ⟨asked, hasked⟩ := Walk.From.exists_complete htree hall .refl
    have hmem : id ∈ listedSongs w.db asked :=
      (h.lists asked hasked).mem_iff.mpr (List.mem_map_of_mem hsong)
    obtain ⟨row', hsong', hrow', -⟩ := mem_listedSongs.mp hmem
    have hrow := Table.lookup_eq_some.mpr hsong
    rw [Table.lookup_eq_some.mpr hsong'] at hrow
    obtain rfl := Option.some.inj hrow
    dsimp only at hdir
    rw [hdir] at hrow'
    exact honly.not_reaches hlinked.dirs (((Walk.complete_visits htree hasked).2 _).mp hrow')
  · intro h
    refine ⟨fun walk hwalk dirId hdir req hreq rep => ?_, fun walk hwalk => ?_,
      fun asked hasked => ?_⟩
    · have hrow := reaches_row ((hwalk.inv htree).reached dirId (List.mem_append_right _ hdir))
      have hrange : -2 ^ 63 ≤ dirId ∧ dirId < 2 ^ 63 := by
        rcases hrow with rfl | ⟨row, hr⟩
        · omega
        · exact hids _ hr
      exact handle_lists (w := { w with rep }) hreq hrange.1 hrange.2 hs hrow
    · have hle := Walk.length_le htree hwalk hall
      simp only [Walk.seen, List.length_append, List.length_cons, List.length_map] at hle
      omega
    · obtain ⟨hnodup, hvisits⟩ := Walk.complete_visits htree hasked
      refine (List.perm_ext_iff_of_nodup (listedSongs_nodup hnodup)
        w.db.songs.nodup_rowids).mpr fun id => ⟨fun hid => ?_, fun hid => ?_⟩
      · obtain ⟨row, hr, -⟩ := mem_listedSongs.mp hid
        exact List.mem_map_of_mem hr
      · obtain ⟨⟨id, row⟩, hr, rfl⟩ := List.mem_map.mp hid
        obtain ⟨dir, hdir⟩ := hlinked.songs _ hr
        obtain ⟨hne, names, hplaced⟩ := hlinked.dirs _ hdir
        refine mem_listedSongs.mpr ⟨row, hr, (hvisits _).mpr ?_, hne⟩
        exact reaches_filled hplaced (.inr ⟨_, hr, rfl⟩) fun honly => h _ honly _ hr rfl

omit [Affinity] in
theorem nulFree_more : nulFree (lit "/more") = true := by
  decide

/-- A library with two roots and a song in one of them. -/
def twoRoots : Database where
  __ := rootWithSong
  musicDirs := (Table.single 1 ⟨0, .ofLiteral (lit "/music") nulFree_music⟩).insert
    ⟨0, .ofLiteral (lit "/more") nulFree_more⟩

theorem mem_twoRoots {r : Int × DirRow} (h : r ∈ twoRoots.musicDirs.rows) :
    (r.1 = 1 ∨ r.1 = 2) ∧ r.2.parentId = 0 := by
  rcases Table.mem_rows_insert.mp h with h | rfl
  · obtain rfl := List.mem_singleton.mp h
    exact ⟨.inl rfl, rfl⟩
  · exact ⟨.inr rfl, rfl⟩

theorem twoRoots_linked : Linked twoRoots where
  dirs r hr := by
    obtain ⟨hid, hp⟩ := mem_twoRoots hr
    obtain ⟨id, ⟨parentId, name⟩⟩ := r
    dsimp only at hid hp
    subst hp
    exact ⟨by rcases hid with rfl | rfl <;> simp, _, .root hr⟩
  songs s hs := by
    obtain rfl := List.mem_singleton.mp hs
    exact ⟨_, List.mem_cons_self ..⟩

theorem twoRoots_rowids : ∀ r ∈ twoRoots.musicDirs.rows, -2 ^ 63 ≤ r.1 ∧ r.1 < 2 ^ 63 := by
  intro r hr
  rcases (mem_twoRoots hr).1 with h | h <;> rw [h] <;> omega

theorem twoRoots_noOnlyRoot (root : Int) : ¬ OnlyRoot twoRoots root := by
  intro h
  have h1 := (h 1).mp ⟨_, List.mem_cons_self .., rfl⟩
  have h2 := (h 2).mp ⟨_, Table.mem_rows_insert.mpr (.inr rfl), rfl⟩
  omega

omit [Affinity] in
/-- With two roots the song is listed once. -/
theorem twoRoots_expands : ∃ _ : Affinity, Expands (.start twoRoots) :=
  ⟨integerAffinity, (@expands_iff integerAffinity
    (@World.start integerAffinity (@twoRoots integerAffinity)) rfl
    (@twoRoots_linked integerAffinity) (@twoRoots_rowids integerAffinity)).mpr
      fun root h => absurd h (@twoRoots_noOnlyRoot integerAffinity root)⟩

omit [Affinity] in
/-- The song in the only root is not listed. -/
theorem rootWithSong_hidden : ∃ _ : Affinity, Linked rootWithSong ∧
    ¬ Expands (.start rootWithSong) := by
  let _ := integerAffinity
  have hrows : ∀ r ∈ rootWithSong.musicDirs.rows, r.1 = 1 ∧ r.2.parentId = 0 := by
    intro r hr
    obtain rfl := List.mem_singleton.mp hr
    exact ⟨rfl, rfl⟩
  have honly : OnlyRoot rootWithSong 1 := by
    refine fun x => ⟨fun ⟨row, hr, _⟩ => (hrows _ hr).1, ?_⟩
    rintro rfl
    exact ⟨_, List.mem_singleton.mpr rfl, rfl⟩
  have hopened : opened rootWithSong 0 = [] := by
    refine List.eq_nil_iff_forall_not_mem.mpr fun x hx => ?_
    rcases (mem_opened.mp hx).1 with ⟨-, root, hroot, row, hr, hp⟩ | ⟨hne, -⟩
    · rw [(hrows _ hr).2] at hp
      have := honly.unique hroot
      omega
    · exact hne ⟨rfl, 1, honly⟩
  refine ⟨integerAffinity, ⟨rootWithSong_forest, fun s hs => ?_⟩, fun h => ?_⟩
  · obtain rfl := List.mem_singleton.mp hs
    exact ⟨_, List.mem_singleton.mpr rfl⟩
  · have hwalk : Walk.From (opened rootWithSong) 0 ⟨[0], []⟩ := by
      have hstep := @Walk.Step.visit _ (opened rootWithSong) [] [] [] 0
      rw [hopened] at hstep
      exact .single hstep
    have hperm := h.lists [0] hwalk
    rw [listedSongs_eq] at hperm
    exact List.cons_ne_nil _ _ hperm.nil_eq.symm

end Handlers.Tree

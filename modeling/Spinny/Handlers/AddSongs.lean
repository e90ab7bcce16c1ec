import Spinny.Handlers.Drops
import Spinny.NumberOrders

/-!
# Songs of the list added to a playlist

`/pl/songs/list` reports `songs.rowid` as the id of a song. `/pl/songs/addsongs` takes ids of this
kind and passes them to `PlayList::load_song`, which loads the song of the entry with that rowid.

* `addedOne`, `songsOf`: what one insertion does to the entries.
* `loop_returns`, `of_loop_returns`: when the loop of the request adds the songs it is given.
* `addSongs_iff`: for which ids, playlists and positions the request does.
-/

namespace Handlers

open Bytes Boost Spinny Sqlite Ews Proc

variable [Affinity]

/-! ## One insertion -/

/-- The entries after one song is inserted. -/
def addedOne (id pos songId : Int) (t : Table EntryRow) : Table EntryRow :=
  (PlayList.shifted id pos 1 t).insert ⟨pos, songId, id⟩

/-- The rowids of the entries with their songs. -/
def songsOf (t : Table EntryRow) : List (Int × Int) := t.rows.map fun r => (r.1, r.2.songId)

section

variable {id pos songId : Int} {t : Table EntryRow}

omit [Affinity] in
theorem nextId_shifted (size : Int) : (PlayList.shifted id pos size t).nextId = t.nextId := by
  have hlast : (PlayList.shifted id pos size t).rows.getLast? =
      t.rows.getLast?.map fun r => (r.1, raise id pos size r.2) := by
    rw [rows_shifted, List.getLast?_map]
  unfold Table.nextId
  rw [hlast]
  cases t.rows.getLast? <;> rfl

omit [Affinity] in
theorem rows_addedOne : (addedOne id pos songId t).rows =
    t.rows.map (fun r => (r.1, raise id pos 1 r.2)) ++ [(t.nextId, ⟨pos, songId, id⟩)] := by
  rw [addedOne, Table.rows_insert, rows_shifted, nextId_shifted]

omit [Affinity] in
theorem songsOf_addedOne : songsOf (addedOne id pos songId t) =
    songsOf t ++ [(t.nextId, songId)] := by
  rw [songsOf, rows_addedOne, List.map_append, List.map_map]
  congr 1
  refine List.map_congr_left fun r _ => ?_
  simp

omit [Affinity] in
theorem mem_songsOf {x y : Int} : (x, y) ∈ songsOf t ↔ ∃ e, (x, e) ∈ t.rows ∧ e.songId = y := by
  simp only [songsOf, List.mem_map, Prod.mk.injEq]
  constructor
  · rintro ⟨r, hr, rfl, rfl⟩
    exact ⟨r.2, hr, rfl⟩
  · rintro ⟨e, he, rfl⟩
    exact ⟨_, he, rfl, rfl⟩

/-- The entries after songs are inserted one after the other, each with how far behind `pos`. -/
def addedEach (id pos : Int) (songs : List (Int × Nat)) (t : Table EntryRow) : Table EntryRow :=
  songs.foldl (fun t s => addedOne id (toInt32 (pos + s.2)) s.1 t) t

omit [Affinity] in
@[simp] theorem addedEach_nil : addedEach id pos [] t = t := rfl

omit [Affinity] in
@[simp] theorem addedEach_cons (s : Int × Nat) (songs : List (Int × Nat)) :
    addedEach id pos (s :: songs) t =
      addedEach id pos songs (addedOne id (toInt32 (pos + s.2)) s.1 t) := rfl

omit [Affinity] in
/-- An entry raised for one song and then for those behind it. -/
theorem raise_raise {k n : Nat} {e : EntryRow} :
    raise id (pos + (k + 1 : Nat)) n (raise id (pos + k) 1 e) =
      raise id (pos + k) (n + 1 : Nat) e := by
  by_cases hid : e.playlistId = id
  · by_cases hp : pos + k ≤ e.presentOrder
    · have hone : raise id (pos + k) 1 e = { e with presentOrder := e.presentOrder + 1 } :=
        if_pos ⟨hp, hid⟩
      rw [hone, raise, raise, if_pos ⟨by push_cast; omega, hid⟩, if_pos ⟨hp, hid⟩]
      congr 1
      push_cast
      omega
    · have hlt : e.presentOrder < pos + k := by omega
      rw [raise_below _ _ _ _ hlt, raise_below _ _ _ _ hlt,
        raise_below _ _ _ _ (by push_cast; omega)]
  · rw [raise_other _ _ _ _ hid, raise_other _ _ _ _ hid, raise_other _ _ _ _ hid]

omit [Affinity] in
/-- Inserted at neighbouring positions of the type `int`, the songs stand behind one another. -/
theorem rows_addedEach (ids : List Int) (k : Nat) (hlow : -2 ^ 31 ≤ pos + k)
    (hhigh : pos + k + ids.length ≤ 2 ^ 31) :
    ∃ new, new.map Prod.snd = (ids.zipIdx k).map (fun s => EntryRow.mk (pos + s.2) s.1 id) ∧
      (addedEach id pos (ids.zipIdx k) t).rows =
        t.rows.map (fun r => (r.1, raise id (pos + k) ids.length r.2)) ++ new := by
  induction ids generalizing k t with
  | nil =>
    refine ⟨[], rfl, ?_⟩
    rw [List.append_nil]
    refine ((List.map_congr_left fun r _ => ?_).trans (List.map_id _)).symm
    unfold raise
    split <;> simp
  | cons x ids ih =>
    rw [List.length_cons] at hhigh
    have hpos : toInt32 (pos + k) = pos + k := toInt32_of_small (by omega) (by omega)
    obtain ⟨new, hnew, hrows⟩ := ih (t := addedOne id (pos + k) x t) (k + 1)
      (by push_cast; omega) (by push_cast; omega)
    rw [rows_addedOne] at hrows
    refine ⟨(t.nextId, ⟨pos + k, x, id⟩) :: new, ?_, ?_⟩
    · simp [hnew]
    · rw [List.zipIdx_cons, addedEach_cons, hpos, hrows, List.map_append, List.map_map,
        List.append_assoc]
      congr 1
      · refine List.map_congr_left fun r _ => ?_
        simp only [Function.comp_apply, Prod.mk.injEq, true_and]
        exact raise_raise
      · simp only [List.map_cons, List.map_nil, List.cons_append, List.nil_append,
          List.cons.injEq, Prod.mk.injEq, true_and, and_true]
        exact raise_below _ _ _ _ (by dsimp only; push_cast; omega)

omit [Affinity] in
/-- No inserted entry is below the positions of the type `int`. -/
theorem lower_addedEach (songs : List (Int × Nat)) {m : Nat} (hm : m ≤ t.rows.length)
    (h : ∀ r ∈ t.rows.drop m, -2 ^ 31 ≤ r.2.presentOrder) :
    ∀ r ∈ (addedEach id pos songs t).rows.drop m, -2 ^ 31 ≤ r.2.presentOrder := by
  induction songs generalizing t with
  | nil => exact h
  | cons s songs ih =>
    rw [addedEach_cons]
    refine ih ?_ ?_
    · rw [rows_addedOne, List.length_append, List.length_map]
      omega
    · rw [rows_addedOne, List.drop_append_of_le_length (by rwa [List.length_map]),
        ← List.map_drop]
      intro r hr
      rcases List.mem_append.mp hr with hr | hr
      · obtain ⟨o, ho, rfl⟩ := List.mem_map.mp hr
        have := h o ho
        dsimp only [raise]
        split
        · dsimp only
          omega
        · exact this
      · rw [List.mem_singleton.mp hr]
        exact (toInt32_range _).1

omit [Affinity] in
/-- The last entry is where the last song is inserted. -/
theorem last_addedEach (songs : List (Int × Nat)) (x : Int) (k : Nat) :
    ((addedEach id pos (songs ++ [(x, k)]) t).rows.getLast?.map Prod.snd) =
      some ⟨toInt32 (pos + k), x, id⟩ := by
  have hlast : addedEach id pos (songs ++ [(x, k)]) t =
      addedOne id (toInt32 (pos + k)) x (addedEach id pos songs t) := List.foldl_concat ..
  rw [hlast, rows_addedOne]
  simp

omit [Affinity] in
/-- Which positions and which playlist the added songs have. -/
theorem adds_addedEach_iff {plId : Int} {ids : List Int} :
    Adds plId pos ids t (addedEach id pos ids.zipIdx t) ↔
      ids = [] ∨ id = plId ∧ -2 ^ 31 ≤ pos ∧ pos + ids.length ≤ 2 ^ 31 := by
  constructor
  · rintro ⟨new, hnew, hrows⟩
    rcases List.eq_nil_or_concat ids with rfl | ⟨init, x, rfl⟩
    · exact .inl rfl
    · rw [List.concat_eq_append] at hnew hrows ⊢
      have hlen : new.length = init.length + 1 := by
        simpa using congrArg List.length hnew
      have hlast := @last_addedEach id pos t init.zipIdx x init.length
      rw [List.zipIdx_append, Nat.zero_add] at hrows
      have hlow := @lower_addedEach id pos t
        (init.zipIdx ++ [(x, init.length)]) _ le_rfl (by simp)
      have hdrop : (addedEach id pos (init.zipIdx ++ [(x, init.length)]) t).rows.drop
          t.rows.length = new := by
        rw [show [(x, init.length)] = [x].zipIdx init.length from rfl, hrows]
        exact List.drop_left' (by simp)
      rw [hdrop] at hlow
      -- The first song is at the position itself.
      have hfirst : ∃ r ∈ new, r.2.presentOrder = pos := by
        obtain ⟨r, rest, rfl⟩ := List.exists_cons_of_length_pos (l := new) (by omega)
        have hhead := congrArg List.head? hnew
        refine ⟨r, List.mem_cons_self, ?_⟩
        cases init <;> simp at hhead <;> rw [hhead]
      obtain ⟨r, hr, hpos⟩ := hfirst
      -- The last song is inserted last, so it is where it was inserted.
      have hend : (new.getLast?.map Prod.snd) = some ⟨pos + init.length, x, plId⟩ := by
        rw [← List.getLast?_map, hnew, List.zipIdx_append]
        simp
      have hne : new ≠ [] := by
        rintro rfl
        simp at hlen
      rw [show [(x, init.length)] = [x].zipIdx init.length from rfl, hrows,
        List.getLast?_append_of_ne_nil _ hne, hend] at hlast
      have heq := EntryRow.mk.inj (Option.some.inj hlast)
      have hrange := toInt32_range (pos + init.length)
      rw [← heq.1] at hrange
      have := hlow r hr
      refine .inr ⟨heq.2.2.symm, by omega, ?_⟩
      rw [List.length_append, List.length_singleton]
      push_cast
      omega
  · intro h
    rcases h with rfl | ⟨rfl, hlow, hhigh⟩
    · refine ⟨[], rfl, ?_⟩
      rw [List.append_nil]
      refine ((List.map_congr_left fun r _ => ?_).trans (List.map_id _)).symm
      unfold raise
      split <;> simp
    · have h := @rows_addedEach id pos t ids 0 (by simpa using hlow)
        (by simpa using hhigh)
      rwa [Nat.cast_zero, Int.add_zero] at h

end

/-! ## The loop of the request -/

/-- The loop of `/pl/songs/addsongs` for one id. -/
def addEach (pl : PlayList) (pos : Int) (s : Int × Nat) : Act Unit := do
  pl.insertSong (← PlayList.loadSong s.1) (toInt32 (pos + s.2))

section

variable {w : World} {pl : PlayList} {p : PlayListFields} {pos : Int}

/-- The id of a playlist does not depend on the entries. -/
theorem fields_withEntries (hp : Returns pl.fields w p w) (t : Table EntryRow) :
    Returns pl.fields (w.withEntries t) p (w.withEntries t) := by
  have hout := hp.outcome
  cases pl with
  | stored q => exact ⟨hout, rfl⟩
  | complete => exact ⟨hout, rfl⟩

theorem insertSong_returns (hs : w.stale = false) (hp : Returns pl.fields w p w)
    (song : Spinny.Song) (pos : Int) :
    Returns (pl.insertSong song pos) w ()
      (w.withEntries (addedOne p.dbId pos song.dbId w.db.playlistSongs)) :=
  (dbId_returns hp).bind ((mapEntries_returns hs _).bind
    (mapEntries_returns (w := w.withEntries (PlayList.shifted p.dbId pos 1 w.db.playlistSongs)) hs
      fun t => t.insert ⟨pos, song.dbId, p.dbId⟩))

/-- `load_song` finds the song of the entry. -/
theorem loadSong_returns (hs : w.stale = false) {x : Int} {e : EntryRow} {row : SongRow}
    (he : (x, e) ∈ w.db.playlistSongs.rows) (hrow : (e.songId, row) ∈ w.db.songs.rows) :
    Returns (PlayList.loadSong x) w (.ofRow e.songId row) w where
  outcome := by
    unfold PlayList.loadSong
    rw [outcome_loadOne, if_neg (by simp [hs]), Table.lookup_eq_some.mpr he]
    simp only [Table.lookup_eq_some.mpr hrow]
    rfl
  after := by
    unfold PlayList.loadSong
    rw [after_loadOne]
    cases w
    simp

/-- What `load_song` finds is the song of an entry. -/
theorem of_loadSong_ok {x : Int} {s : Spinny.Song}
    (h : outcome (PlayList.loadSong x) w = .ok s) :
    (x, s.dbId) ∈ songsOf w.db.playlistSongs ∧ after (PlayList.loadSong x) w = w := by
  unfold PlayList.loadSong at h ⊢
  rw [after_loadOne]
  rw [outcome_loadOne] at h
  split at h
  · cases h
  · refine ⟨?_, by cases w; simp⟩
    cases he : w.db.playlistSongs.lookup x with
    | none => simp [he] at h
    | some e =>
      cases hrow : w.db.songs.lookup e.songId with
      | none => simp [he, hrow] at h
      | some row =>
        simp only [he, hrow, Option.map_some, Option.toList_some, Except.ok.injEq] at h
        exact mem_songsOf.mpr ⟨e, Table.lookup_eq_some.mp he, by rw [← h]; rfl⟩

/-- The loop adds the songs it is given if each of them is the song of the entry with its id. -/
theorem loop_returns {songs : List (Int × Nat)} (hs : w.stale = false)
    (hp : Returns pl.fields w p w)
    (h : ∀ s ∈ songs, (s.1, s.1) ∈ songsOf w.db.playlistSongs)
    (hrows : ∀ s ∈ songs, ∃ row, (s.1, row) ∈ w.db.songs.rows) :
    Returns (songs.forM (addEach pl pos)) w ()
      (w.withEntries (addedEach p.dbId pos songs w.db.playlistSongs)) := by
  induction songs generalizing w with
  | nil => exact ⟨rfl, rfl⟩
  | cons s songs ih =>
    obtain ⟨e, he, hsong⟩ := mem_songsOf.mp (h s (by simp))
    obtain ⟨row, hrow⟩ := hrows s (by simp)
    have hload := loadSong_returns hs he (hsong ▸ hrow)
    have hinsert := insertSong_returns hs hp (.ofRow e.songId row) (toInt32 (pos + s.2))
    rw [forM_cons, addedEach_cons]
    refine (hload.bind hinsert).bind ?_
    rw [show (Spinny.Song.ofRow e.songId row).dbId = s.1 from hsong]
    refine ih (w := w.withEntries _) hs (fields_withEntries hp _) (fun s' hs' => ?_)
      fun s' hs' => hrows s' (by simp [hs'])
    change _ ∈ songsOf (addedOne _ _ _ _)
    rw [songsOf_addedOne]
    exact List.mem_append_left _ (h s' (by simp [hs']))

/-- Where the loop adds the songs it is given, each is the song of the entry with its id: an entry
that the loop itself has added has no id that was given before. -/
theorem of_loop_returns {songs : List (Int × Nat)} (hs : w.stale = false)
    (hp : Returns pl.fields w p w) (h : outcome (songs.forM (addEach pl pos)) w = .ok ()) :
    ∃ t new, after (songs.forM (addEach pl pos)) w = w.withEntries t ∧
      songsOf t = songsOf w.db.playlistSongs ++ new ∧ new.length = songs.length ∧
      (new.map Prod.snd = songs.map Prod.fst →
        ∀ s ∈ songs, (s.1, s.1) ∈ songsOf w.db.playlistSongs) := by
  induction songs generalizing w with
  | nil => exact ⟨_, [], rfl, by simp, rfl, fun _ s hs' => by cases hs'⟩
  | cons s songs ih =>
    rw [forM_cons] at h ⊢
    obtain ⟨_, hone, hrest⟩ := bind_eq_ok.mp h
    rw [after_bind_ok hone]
    obtain ⟨song, hload, hinsert⟩ := bind_eq_ok.mp hone
    obtain ⟨hentry, hafter⟩ := of_loadSong_ok hload
    have hinserted := insertSong_returns hs hp song (toInt32 (pos + s.2))
    have hstep : after (addEach pl pos s) w = w.withEntries
        (addedOne p.dbId (toInt32 (pos + s.2)) song.dbId w.db.playlistSongs) := by
      unfold addEach
      rw [after_bind_ok hload, hafter, hinserted.after]
    rw [hstep] at hrest ⊢
    obtain ⟨t, new, hworld, hsongs, hlen, hall⟩ := ih (w := w.withEntries (addedOne p.dbId
      (toInt32 (pos + s.2)) song.dbId w.db.playlistSongs)) hs (fields_withEntries hp _) hrest
    change songsOf t = songsOf (addedOne _ _ _ _) ++ new at hsongs
    rw [songsOf_addedOne, List.append_assoc] at hsongs
    refine ⟨t, (w.db.playlistSongs.nextId, song.dbId) :: new, hworld, hsongs, by simp [hlen], ?_⟩
    intro hmap
    simp only [List.map_cons, List.cons.injEq] at hmap
    have hold : (s.1, s.1) ∈ songsOf w.db.playlistSongs := by rwa [hmap.1] at hentry
    intro s' hs'
    rcases List.mem_cons.mp hs' with rfl | hs'
    · exact hold
    · have hmem := hall hmap.2 s' hs'
      change _ ∈ songsOf (addedOne _ _ _ _) at hmem
      rw [songsOf_addedOne, List.mem_append, List.mem_singleton, Prod.mk.injEq] at hmem
      rcases hmem with hmem | ⟨hnext, hsong⟩
      · exact hmem
      · -- The first id would be the one of the entry that its song got.
        obtain ⟨e, he, -⟩ := mem_songsOf.mp hold
        have hlt := w.db.playlistSongs.lt_nextId _ he
        dsimp only at hlt
        omega

end

/-! ## The request -/

/-- An id that `/pl/songs/list` reports: one of a song that `songs` lists for some playlist. -/
def Reported (env : Env) (w : World) (x : Int) : Prop :=
  ∃ pl start limit l, ListsSongs env pl w start limit l ∧ x ∈ l.map Spinny.Song.dbId

/-- A listing of the library gives out none but its songs. -/
def ListsComplete (env : Env) : Prop :=
  ∀ text order, env.orderComplete text = some order →
    ∀ db rows sorted, order db rows = some sorted → ∀ r ∈ sorted, r ∈ rows

/-- The request for the songs `ids` to be added to a playlist. -/
structure AddsRequest (req : Request) (ids : List Int) (plId pos : Int) : Prop where
  path : req.u1 = lit "pl" ∧ req.u2 = lit "songs" ∧ req.u3 = lit "addsongs"
  playList : (req.varibles[lit "pl_id"]?.getD []).head? = some (showInt plId)
  ids : req.varibles[lit "song_id"]?.getD [] = ids.map showInt
  pos : (req.varibles[lit "pos"]?.getD []).head? = some (showInt pos)

/-- The request is answered, and the songs are in the playlist. -/
def AddsAll (env : Env) (req : Request) (ids : List Int) (plId pos : Int) (w : World) : Prop :=
  ∃ w', Returns (PL.handle env req) w .stop w' ∧
    { w'.db with playlistSongs := w.db.playlistSongs } = w.db ∧
      Adds plId pos ids w.db.playlistSongs w'.db.playlistSongs

section

variable {env : Env} {req : Request} {ids : List Int} {plId pos : Int} {w : World}

/-- A reported id is one of a song. -/
theorem Reported.row (hjoined : env.ListsJoined) (hcomplete : ListsComplete env) {x : Int}
    (h : Reported env w x) : ∃ row, (x, row) ∈ w.db.songs.rows := by
  obtain ⟨pl, start, limit, l, ⟨rs, hret, hl⟩, hx⟩ := h
  have hstat := PlayList.statement_of_songs hret.outcome
  cases pl with
  | stored p =>
    obtain ⟨order, horder, rfl⟩ := Option.map_eq_some_iff.mp hstat
    obtain ⟨rows, hrows, rfl⟩ := Option.map_eq_some_iff.mp hl
    obtain ⟨s, hs, rfl⟩ := List.mem_map.mp hx
    obtain ⟨j, hj, rfl⟩ := List.mem_map.mp hs
    have hmem := hjoined _ _ horder _ _ _ hrows j hj
    obtain ⟨r, hr, hmem⟩ := List.mem_flatMap.mp hmem
    obtain ⟨e, -, rfl⟩ := List.mem_map.mp hmem
    exact ⟨_, hr⟩
  | complete =>
    obtain ⟨order, horder, rfl⟩ := Option.map_eq_some_iff.mp hstat
    obtain ⟨rows, hrows, rfl⟩ := Option.map_eq_some_iff.mp hl
    obtain ⟨s, hs, rfl⟩ := List.mem_map.mp hx
    obtain ⟨r, hr, rfl⟩ := List.mem_map.mp hs
    exact ⟨_, hcomplete _ _ horder _ _ _ hrows r hr⟩

/-- The ids are read back as they were written. -/
theorem forM_showInt (pl : PlayList) (k : Nat) (hids : ∀ x ∈ ids, IsId x) :
    ((ids.map showInt).zipIdx k).forM (fun songId => do
      let song ← PlayList.loadSong (← cast (toId songId.1))
      pl.insertSong song (toInt32 (pos + songId.2))) =
    (ids.zipIdx k).forM (addEach pl pos) := by
  induction ids generalizing k with
  | nil => rfl
  | cons x ids ih =>
    have hx : toId (showInt x) = some x :=
      lexicalCastSigned_showInt (hids x (by simp)).1 (hids x (by simp)).2
    rw [List.map_cons, List.zipIdx_cons, List.zipIdx_cons, forM_cons, forM_cons,
      ih (k + 1) fun y hy => hids y (by simp [hy])]
    simp only [hx, cast_some, pure_bind]
    rfl

/-- The steps of the request. -/
theorem handle_addSongs (h : AddsRequest req ids plId pos) (hpl : IsId plId) (hpos : IsId pos)
    (hids : ∀ x ∈ ids, IsId x) :
    PL.handle env req = (do
      let pl ← PlayList.load plId
      ids.zipIdx.forM (addEach pl pos)
      modifyRep fun rep =>
        (rep.setHeader (lit "X-HANDLED-BY") PL.name).setBasicHeaders (lit "json")
      return .stop) := by
  obtain ⟨h1, h2, h3⟩ := h.path
  have hne : ∀ other, lit "addsongs" ≠ other → ¬ req.u3 = other := fun other hne => h3 ▸ hne
  have hadd : ∀ pl, PL.addSongs req pl = ids.zipIdx.forM (addEach pl pos) := by
    intro pl
    rw [← forM_showInt pl 0 hids]
    unfold PL.addSongs
    cases hv : req.varibles[lit "song_id"]? with
    | none =>
      have hnil := h.ids
      rw [hv, Option.getD_none] at hnil
      rw [← hnil]
      rfl
    | some texts =>
      have htexts := h.ids
      rw [hv, Option.getD_some] at htexts
      rw [idValue_showInt hpos h.pos, htexts]
      rfl
  rw [PL.handle, if_neg (not_not.mpr h1), PL.answer, if_pos h2, PL.songs,
    idValue_showInt hpl h.playList]
  simp only [if_neg (hne (lit "list") (by decide)), if_neg (hne (lit "reorder") (by decide)),
    if_pos h3, hadd, bind_assoc, pure_bind]

/-- The request adds the songs to the playlist if and only if the id of each is also that of an entry
with this very song, and, unless there are none, the playlist is not the one of all songs and the
positions are of the type `int`. -/
theorem addSongs_iff (hjoined : env.ListsJoined) (hcomplete : ListsComplete env)
    (hs : w.stale = false) (h : AddsRequest req ids plId pos)
    (hreported : ∀ x ∈ ids, Reported env w x) (hpl : (PlayList.atId w.db plId).isSome = true)
    (hids : ∀ x ∈ ids, IsId x) (hplid : IsId plId) (hpos : IsId pos) :
    AddsAll env req ids plId pos w ↔
      (∀ x ∈ ids, ∃ e, (x, e) ∈ w.db.playlistSongs.rows ∧ e.songId = x) ∧
        (ids = [] ∨ (plId = 1 → w.complete.dbId = 1) ∧
          -2 ^ 31 ≤ pos ∧ pos + ids.length ≤ 2 ^ 31) := by
  obtain ⟨pl, hat⟩ := Option.isSome_iff_exists.mp hpl
  obtain ⟨p, hp, hid⟩ := atId_fields hat
  have hload := load_returns hs hat
  have hrows : ∀ s ∈ ids.zipIdx, ∃ row, (s.1, row) ∈ w.db.songs.rows := fun s hs =>
    (hreported _ (List.fst_mem_of_mem_zipIdx hs)).row hjoined hcomplete
  -- What the request comes to where the loop loads the songs it is given.
  have hrun : (∀ x ∈ ids, (x, x) ∈ songsOf w.db.playlistSongs) →
      Returns (PL.handle env req) w .stop
        { w.withEntries (addedEach p.dbId pos ids.zipIdx w.db.playlistSongs) with
          rep := (w.rep.setHeader (lit "X-HANDLED-BY") PL.name).setBasicHeaders (lit "json") } := by
    intro hall
    rw [handle_addSongs h hplid hpos hids]
    have hloop := @loop_returns _ _ _ _ pos _ hs hp
      (fun s hs => hall _ (List.fst_mem_of_mem_zipIdx hs)) hrows
    exact hload.bind (hloop.bind ⟨rfl, rfl⟩)
  simp only [← mem_songsOf]
  rw [← hid, ← adds_addedEach_iff (t := w.db.playlistSongs)]
  constructor
  · rintro ⟨w', hret, -, hadds⟩
    have hall : ∀ x ∈ ids, (x, x) ∈ songsOf w.db.playlistSongs := by
      have hout := hret.outcome
      have hafter := hret.after
      rw [handle_addSongs h hplid hpos hids] at hout hafter
      rw [outcome_bind_ok hload.outcome, hload.after] at hout
      rw [after_bind_ok hload.outcome, hload.after] at hafter
      obtain ⟨_, hloop, -⟩ := bind_eq_ok.mp hout
      obtain ⟨t, new, hworld, hsongs, -, hmem⟩ := of_loop_returns hs hp hloop
      rw [after_bind_ok hloop, hworld] at hafter
      obtain rfl : t = w'.db.playlistSongs := by rw [← hafter]; rfl
      obtain ⟨added, hadded, hshape⟩ := hadds
      have hsame : new = added.map fun r => (r.1, r.2.songId) := by
        rw [songsOf, hshape, List.map_append, List.map_map] at hsongs
        refine (List.append_inj_right hsongs ?_).symm
        simp [songsOf]
      have hgiven : new.map Prod.snd = ids.zipIdx.map Prod.fst := by
        have hsongIds := congrArg (List.map EntryRow.songId) hadded
        rw [List.map_map, List.map_map] at hsongIds
        rw [hsame, List.map_map]
        exact hsongIds
      intro x hx
      rw [← List.zipIdx_map_fst 0 ids] at hx
      obtain ⟨s, hs, rfl⟩ := List.mem_map.mp hx
      exact hmem hgiven s hs
    refine ⟨hall, ?_⟩
    obtain rfl := hret.after.symm.trans (hrun hall).after
    exact hadds
  · rintro ⟨hall, hadds⟩
    exact ⟨_, hrun hall, rfl, hadds⟩

end

/-! ## One song -/

/-- The request for the song 1 to be added to the playlist 2 at the position 1. -/
def addFirst : Request :=
  .forUrl (lit "/pl/songs/addsongs") (Std.ExtTreeMap.ofList
    [(lit "pl_id", [lit "2"]), (lit "song_id", [lit "1"]), (lit "pos", [lit "1"])])

/-- The song 1 stands in the playlist 2, by the entry with a rowid. -/
def listedSong (entryId : Int) : Database :=
  { oneEntry entryId with playlists := (twoNumbers 1 2).playlists }

omit [Affinity] in
theorem addFirst_request : AddsRequest addFirst [1] 2 1 := by
  apply AddsRequest.mk <;> decide

theorem evaluating_listsComplete : ListsComplete .evaluating := by
  intro text order h db rows sorted hsorted r hr
  simp only [Env.evaluating, Env.sorting] at h
  split at h
  · obtain rfl := Option.some.inj h
    obtain rfl := Option.some.inj hsorted
    exact List.mem_mergeSort.mp hr
  · obtain ⟨c, -, rfl⟩ := Option.map_eq_some_iff.mp h
    obtain rfl := Option.some.inj hsorted
    exact (sortUpper_perm _ _ _).mem_iff.mp hr

theorem listedSong_reported (entryId : Int) :
    ∀ x ∈ [1], Reported .evaluating (.start (listedSong entryId)) x := by
  intro x hx
  obtain rfl := List.mem_singleton.mp hx
  have hlist : ListsSongs .evaluating (.stored newPlayList) (.start (listedSong entryId)) 0 0 _ :=
    listsSongs_stored rfl (quoteOnly_storedOrders _ List.mem_cons_self) rfl
      (congrArg some (List.mergeSort_singleton _))
  exact ⟨_, _, _, _, hlist, List.mem_singleton.mpr rfl⟩

/-- The request for the songs 2 and 1 to be added to the playlist 2 from the position 1 on. -/
def addBoth : Request :=
  .forUrl (lit "/pl/songs/addsongs") (Std.ExtTreeMap.ofList
    [(lit "pl_id", [lit "2"]), (lit "song_id", [lit "2", lit "1"]), (lit "pos", [lit "1"])])

omit [Affinity] in
theorem addBoth_request : AddsRequest addBoth [2, 1] 2 1 := by
  apply AddsRequest.mk <;> decide

/-- The songs 1 and 2 stand in the playlist 2, by entries with their rowids. -/
def listedBoth : Database := { twoEntries with playlists := (twoNumbers 1 2).playlists }

theorem listedBoth_reported : ∀ x ∈ [2, 1], Reported .evaluating (.start listedBoth) x := by
  intro x hx
  have hlist : ListsSongs .evaluating (.stored newPlayList) (.start listedBoth) 0 0 _ :=
    listsSongs_stored rfl (quoteOnly_storedOrders _ List.mem_cons_self) rfl rfl
  have hjoined : ∀ x ∈ [2, 1], ∃ j ∈ listedBoth.joinedOf 2, j.songId = x := by
    simp only [List.forall_mem_cons]
    exact ⟨⟨_, List.mem_cons_of_mem _ List.mem_cons_self, rfl⟩, ⟨_, List.mem_cons_self, rfl⟩,
      List.forall_mem_nil _⟩
  obtain ⟨j, hj, rfl⟩ := hjoined x hx
  exact ⟨_, _, _, _, hlist,
    List.mem_map.mpr ⟨_, List.mem_map.mpr ⟨j, List.mem_mergeSort.mpr hj, rfl⟩, rfl⟩⟩

omit [Affinity] in
/-- The entries have the rowids of their songs. -/
theorem addBoth_adds : ∃ _ : Affinity,
    AddsAll .evaluating addBoth [2, 1] 2 1 (.start listedBoth) := by
  let _ := integerAffinity
  refine ⟨integerAffinity, (addSongs_iff (w := .start listedBoth) Env.evaluating_listsJoined
    evaluating_listsComplete rfl addBoth_request listedBoth_reported rfl ?_ (by decide)
    (by decide)).mpr ⟨?_, .inr ⟨by decide, by decide, by decide⟩⟩⟩
  · decide
  · simp only [List.forall_mem_cons]
    exact ⟨⟨_, List.mem_cons_of_mem _ List.mem_cons_self, rfl⟩, ⟨_, List.mem_cons_self, rfl⟩,
      List.forall_mem_nil _⟩

omit [Affinity] in
/-- The entry has another rowid than its song: no entry has the id that is reported. -/
theorem addFirst_lost : ∃ _ : Affinity,
    (∀ x ∈ [1], Reported .evaluating (.start (listedSong 2)) x) ∧ AddsRequest addFirst [1] 2 1 ∧
      ¬AddsAll .evaluating addFirst [1] 2 1 (.start (listedSong 2)) := by
  let _ := integerAffinity
  refine ⟨integerAffinity, listedSong_reported 2, addFirst_request, ?_⟩
  rintro ⟨w', hret, -, -⟩
  have hout := hret.outcome
  have hload := @load_returns _ (.start (listedSong 2)) rfl 2 _ rfl
  rw [handle_addSongs addFirst_request (by decide) (by decide) (by decide),
    outcome_bind_ok hload.outcome, hload.after] at hout
  obtain ⟨_, hloop, -⟩ := bind_eq_ok.mp hout
  obtain ⟨_, hone, -⟩ := bind_eq_ok.mp hloop
  obtain ⟨song, hsong, -⟩ := bind_eq_ok.mp hone
  obtain ⟨e, he, -⟩ := mem_songsOf.mp (of_loadSong_ok hsong).1
  exact absurd (congrArg Prod.fst (List.mem_singleton.mp he)) (by simp)

end Handlers

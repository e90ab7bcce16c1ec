import Spinny.Library

/-!
# The albums of an artist and the artists of an album

`Artist::albums` and `Album::artists` join the two tables through `songs`; `num_albums` counts the
different albums of the artist's songs.

* `flatMap_replicate_perm_iff`: when a join lists each row of a table once.
* `Artist.listsAlbums_iff`: when `albums` lists each album once and as many as `num_albums` counts.
* `Album.artists_fails`: `artists` always throws.
* `discography_iff`: the tables for which both are as they should be.
-/

namespace Spinny

open Bytes Sqlite Proc

variable [Affinity] {w : World}

/-- The number of the songs of an artist on an album. -/
def Database.songsOn (db : Database) (artistId albumId : Int) : Nat :=
  (db.songs.rows.filter fun s => s.2.albumId == albumId && s.2.artistId == artistId).length

/-- The albums on which the artist has a song. -/
def Artist.albumsWith (a : Artist) (db : Database) : List Album :=
  (db.albums.rows.filter fun r => decide (0 < db.songsOn a.dbId r.1)).map fun r =>
    Album.ofRow r.1 r.2

/-- The artists with a song on the album. -/
def Album.artistsOn (a : Album) (db : Database) : List Artist :=
  (db.artists.rows.filter fun r => decide (0 < db.songsOn r.1 a.dbId)).map fun r =>
    Artist.ofRow r.1 r.2

/-- `albums` lists each of these albums once, and `num_albums` is their number. -/
def Artist.ListsAlbums (w : World) (a : Artist) : Prop :=
  ∃ l n, Returns a.albums w l w ∧ l.Perm (a.albumsWith w.db) ∧
    Returns a.numAlbums w n w ∧ l.length = n

/-- `artists` lists each of these artists once. -/
def Album.ListsArtists (w : World) (a : Album) : Prop :=
  ∃ l, Returns a.artists w l w ∧ l.Perm (a.artistsOn w.db)

/-- The albums of the artist's songs. -/
def Artist.albumIds (a : Artist) (db : Database) : List Int :=
  (db.songs.select fun _ s => s.artistId == a.dbId).map fun s => s.2.albumId

/-! ## Joins -/

section

variable {β γ : Type} {rows : List β} {f : β → γ} {n : β → Nat}

omit [Affinity] in
theorem flatMap_replicate_eq (h : ∀ r ∈ rows, n r ≤ 1) :
    (rows.flatMap fun r => List.replicate (n r) (f r)) =
      (rows.filter fun r => decide (0 < n r)).map f := by
  induction rows with
  | nil => rfl
  | cons r rows ih =>
    obtain ⟨hr, hrows⟩ := List.forall_mem_cons.mp h
    rw [List.flatMap_cons, ih hrows, List.filter_cons]
    by_cases hpos : 0 < n r
    · rw [if_pos (decide_eq_true hpos), show n r = 1 by omega]
      rfl
    · rw [if_neg (by simpa using hpos), show n r = 0 by omega]
      rfl

omit [Affinity] in
/-- A join that repeats each row as often as it has partners lists the rows with a partner once, if
and only if no row has two. -/
theorem flatMap_replicate_perm_iff (hf : (rows.map f).Nodup) :
    (rows.flatMap fun r => List.replicate (n r) (f r)).Perm
        ((rows.filter fun r => decide (0 < n r)).map f) ↔
      ∀ r ∈ rows, n r ≤ 1 := by
  constructor
  · intro h r hr
    have hnodup : ((rows.filter fun r => decide (0 < n r)).map f).Nodup :=
      hf.sublist (List.filter_sublist.map f)
    have hcopies := (List.nodup_flatMap.mp (h.nodup_iff.mpr hnodup)).1 r hr
    exact List.nodup_replicate.mp hcopies
  · exact fun h => .of_eq (flatMap_replicate_eq h)

end

/-! ## What the queries come to -/

/-- `artists` orders by a column of a table from which it does not select. -/
theorem Album.artists_fails (a : Album) (w : World) :
    Raises a.artists w .databaseError { w with stale := true } := by
  have hunknown : knowsTable [lit "artists", lit "songs"] (lit "albums") = false := by decide
  constructor
  · rw [Album.artists, Artist.withAlbum, outcome_loadRows, if_pos (.inr hunknown)]
  · rw [Album.artists, Artist.withAlbum, after_loadRows, hunknown, Bool.not_false, Bool.or_true]

theorem Album.not_listsArtists (a : Album) : ¬a.ListsArtists w := by
  rintro ⟨l, hl, -⟩
  cases hl.outcome.symm.trans (a.artists_fails w).outcome

/-- The rows of the join in the order of the names. -/
def Artist.joined (a : Artist) (db : Database) : List Album :=
  orderByUpper Album.name (db.albums.rows.flatMap fun r =>
    List.replicate (db.songsOn a.dbId r.1) (Album.ofRow r.1 r.2))

namespace Artist

variable {a : Artist}

theorem outcome_albums (a : Artist) (w : World) :
    outcome a.albums w = if w.stale = true then .error .databaseError else .ok (a.joined w.db) := by
  rw [albums, outcome_loadRows]
  simp only [Bool.true_eq_false, or_false, List.map_const']
  rfl

theorem albums_returns_iff {l : List Album} :
    Returns a.albums w l w ↔ w.stale = false ∧ l = a.joined w.db := by
  have hafter : after a.albums w = w := by
    rw [albums, after_loadRows, Bool.not_true, Bool.or_false]
  constructor
  · rintro ⟨hout, -⟩
    rw [outcome_albums] at hout
    split at hout
    · cases hout
    · rename_i hs
      exact ⟨Bool.not_eq_true _ ▸ hs, (Except.ok.inj hout).symm⟩
  · rintro ⟨hs, rfl⟩
    exact ⟨by rw [outcome_albums, if_neg (by simp [hs])], hafter⟩

theorem numAlbums_returns (hs : w.stale = false) :
    Returns a.numAlbums w (a.albumIds w.db).dedup.length w := by
  constructor
  · rw [numAlbums, outcome_execSelect, if_neg (by simp [hs])]
    rfl
  · rw [numAlbums, after_execSelect, ← hs]

theorem songsOn_eq_count (a : Artist) (db : Database) (id : Int) :
    db.songsOn a.dbId id = (a.albumIds db).count id := by
  rw [albumIds, List.count_eq_countP, List.countP_map, Table.select, List.countP_filter,
    List.countP_eq_length_filter]
  rfl

theorem nodup_albums (db : Database) :
    (db.albums.rows.map fun r => Album.ofRow r.1 r.2).Nodup := by
  refine List.Nodup.of_map Album.dbId ?_
  rw [List.map_map]
  exact db.albums.nodup_rowids

/-- The join lists each album with a song of the artist once if and only if the artist has no two
songs on one. -/
theorem joined_perm_iff :
    (a.joined w.db).Perm (a.albumsWith w.db) ↔
      ∀ r ∈ w.db.albums.rows, w.db.songsOn a.dbId r.1 ≤ 1 := by
  rw [← flatMap_replicate_perm_iff (nodup_albums w.db)]
  exact ⟨(List.mergeSort_perm _ _).symm.trans, (List.mergeSort_perm _ _).trans⟩

/-- The rowids of the albums on which the artist has a song. -/
theorem mem_ids_albumsWith {id : Int} :
    id ∈ (a.albumsWith w.db).map Album.dbId ↔
      id ∈ w.db.albums.rows.map Prod.fst ∧ id ∈ a.albumIds w.db := by
  rw [albumsWith, List.map_map, List.mem_map, List.mem_map]
  constructor
  · rintro ⟨r, hr, rfl⟩
    obtain ⟨hmem, hpos⟩ := List.mem_filter.mp hr
    rw [decide_eq_true_eq, songsOn_eq_count, List.count_pos_iff] at hpos
    exact ⟨⟨r, hmem, rfl⟩, hpos⟩
  · rintro ⟨⟨r, hmem, rfl⟩, hid⟩
    refine ⟨r, List.mem_filter.mpr ⟨hmem, ?_⟩, rfl⟩
    rw [decide_eq_true_eq, songsOn_eq_count]
    exact List.count_pos_iff.mpr hid

theorem nodup_ids_albumsWith : ((a.albumsWith w.db).map Album.dbId).Nodup := by
  rw [albumsWith, List.map_map]
  exact w.db.albums.nodup_rowids.sublist (List.filter_sublist.map Prod.fst)

/-- The albums with a song of the artist are as many as the different albums of the songs if and
only if each of these is in the table. -/
theorem length_albumsWith_iff :
    (a.albumsWith w.db).length = (a.albumIds w.db).dedup.length ↔
      ∀ id ∈ a.albumIds w.db, id ∈ w.db.albums.rows.map Prod.fst := by
  have hsub : (a.albumsWith w.db).map Album.dbId ⊆ (a.albumIds w.db).dedup :=
    fun id hid => List.mem_dedup.mpr (mem_ids_albumsWith.mp hid).2
  have hsubperm : ((a.albumsWith w.db).map Album.dbId).Subperm (a.albumIds w.db).dedup :=
    List.subperm_of_subset nodup_ids_albumsWith hsub
  constructor
  · intro hlength id hid
    have hperm := hsubperm.perm_of_length_le (by rw [List.length_map, hlength])
    exact (mem_ids_albumsWith.mp (hperm.mem_iff.mpr (List.mem_dedup.mpr hid))).1
  · intro hstored
    have hperm : ((a.albumsWith w.db).map Album.dbId).Perm (a.albumIds w.db).dedup :=
      (List.perm_ext_iff_of_nodup nodup_ids_albumsWith (List.nodup_dedup _)).mpr fun id => by
        rw [mem_ids_albumsWith, List.mem_dedup]
        exact ⟨fun h => h.2, fun h => ⟨hstored id h, h⟩⟩
    rw [← List.length_map Album.dbId, hperm.length_eq]

/-- The list and the count of an artist's albums are right if and only if the connection is clean,
no two songs of the artist are on one album, and each of the albums is stored. -/
theorem listsAlbums_iff :
    a.ListsAlbums w ↔ w.stale = false ∧ (a.albumIds w.db).Nodup ∧
      ∀ id ∈ a.albumIds w.db, id ∈ w.db.albums.rows.map Prod.fst := by
  constructor
  · rintro ⟨l, n, hl, hperm, hn, hlength⟩
    obtain ⟨hs, rfl⟩ := albums_returns_iff.mp hl
    obtain rfl := Except.ok.inj (hn.outcome.symm.trans (numAlbums_returns hs).outcome)
    have hstored := length_albumsWith_iff.mp (hperm.length_eq ▸ hlength)
    refine ⟨hs, List.nodup_iff_count_le_one.mpr fun id => ?_, hstored⟩
    by_cases hid : id ∈ a.albumIds w.db
    · obtain ⟨r, hr, rfl⟩ := List.mem_map.mp (hstored id hid)
      rw [← songsOn_eq_count]
      exact joined_perm_iff.mp hperm r hr
    · rw [List.count_eq_zero_of_not_mem hid]
      exact Nat.zero_le 1
  · rintro ⟨hs, hnodup, hstored⟩
    have hperm : (a.joined w.db).Perm (a.albumsWith w.db) := by
      refine joined_perm_iff.mpr fun r _ => ?_
      rw [songsOn_eq_count]
      exact List.nodup_iff_count_le_one.mp hnodup r.1
    refine ⟨_, _, albums_returns_iff.mpr ⟨hs, rfl⟩, hperm, numAlbums_returns hs, ?_⟩
    rw [hperm.length_eq]
    exact length_albumsWith_iff.mpr hstored

end Artist

/-! ## All artists and albums -/

/-- The albums of every artist and the artists of every album are listed as they should be if and
only if there are no albums and no artist has a song; for one artist, if and only if no two of its
songs are on one album and each album is stored; for an album never. -/
theorem discography_iff (w : World) :
    (((∀ r ∈ w.db.artists.rows, (Artist.ofRow r.1 r.2).ListsAlbums w) ∧
        ∀ r ∈ w.db.albums.rows, (Album.ofRow r.1 r.2).ListsArtists w) ↔
      w.db.albums.rows = [] ∧ ∀ r ∈ w.db.artists.rows,
        w.stale = false ∧ ∀ s ∈ w.db.songs.rows, s.2.artistId ≠ r.1) ∧
    (∀ a : Artist, a.ListsAlbums w ↔ w.stale = false ∧ (a.albumIds w.db).Nodup ∧
      ∀ id ∈ a.albumIds w.db, id ∈ w.db.albums.rows.map Prod.fst) ∧
    ∀ a : Album, ¬a.ListsArtists w := by
  refine ⟨?_, fun a => Artist.listsAlbums_iff, fun a => a.not_listsArtists⟩
  have hsongs : ∀ r : Int × NameRow, (Artist.ofRow r.1 r.2).albumIds w.db = [] ↔
      ∀ s ∈ w.db.songs.rows, s.2.artistId ≠ r.1 := by
    intro r
    rw [Artist.albumIds, List.map_eq_nil_iff, Table.select, List.filter_eq_nil_iff]
    simp [Artist.ofRow]
  constructor
  · rintro ⟨hartists, halbums⟩
    have hnone : w.db.albums.rows = [] :=
      List.eq_nil_iff_forall_not_mem.mpr fun r hr => Album.not_listsArtists _ (halbums r hr)
    refine ⟨hnone, fun r hr => ?_⟩
    obtain ⟨hs, -, hstored⟩ := Artist.listsAlbums_iff.mp (hartists r hr)
    refine ⟨hs, (hsongs r).mp (List.eq_nil_iff_forall_not_mem.mpr fun id hid => ?_)⟩
    have hmem := hstored id hid
    rw [hnone] at hmem
    cases hmem
  · rintro ⟨hnone, hartists⟩
    refine ⟨fun r hr => ?_, by simp [hnone]⟩
    obtain ⟨hs, hno⟩ := hartists r hr
    have hnil := (hsongs r).mpr hno
    exact Artist.listsAlbums_iff.mpr ⟨hs, by simp [hnil], by simp [hnil]⟩

/-- A database with one artist and one album, and two songs by the one on the other. -/
def twoSongs : Database :=
  { Database.empty with
    artists := .single 1 ⟨.empty⟩
    albums := .single 1 ⟨.empty⟩
    songs := (Table.single 1 ⟨1, 1, 1, .empty, .empty, 0, 0, 0, 0⟩).insert
      ⟨1, 1, 1, .empty, .empty, 0, 0, 0, 0⟩ }

omit [Affinity] in
/-- The album is listed twice, and its artists are not listed. -/
theorem discography_two_songs : ∃ _ : Affinity,
    ¬(Artist.ofRow 1 ⟨.empty⟩).ListsAlbums (.start twoSongs) ∧
      ¬(Album.ofRow 1 ⟨.empty⟩).ListsArtists (.start twoSongs) := by
  let _ := integerAffinity
  refine ⟨integerAffinity, fun h => ?_, Album.not_listsArtists _⟩
  exact absurd (Artist.listsAlbums_iff.mp h).2.1 (by decide)

end Spinny

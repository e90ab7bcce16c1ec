import Spinny.Merges

/-!
# One song of a listing

`PlayList::at` and `PlayList::songs` are two statements over the songs of a playlist. `at` reads
`playlist_songs.rowid` as the `db_id` of the song, where `songs` reads `songs.rowid`, and it does
not select the names that `songs` calls `artist` and `album`. The statements of
`CompletePlayList::at` and `CompletePlayList::songs` select the same.

* `at`, `completeAt`: the statements of `at`.
* `Limits`, `Env.Orders`: what SQLite makes of the orders that `set_order` puts together.
* `at_iff`: for which playlists and indexes `at` gives the song that `songs` lists there.
-/

namespace Spinny

open Bytes Boost Sqlite Proc

variable [Affinity]

/-! ## The source -/

/-- `load_one` of a streamed statement. -/
def loadFirst {α : Type} (rs : Option (ResultSet α)) : Act α := do
  match ← (← loadStored rs).begin with
  | row :: _ => return row
  | [] => throw .notFound

/-- `PlayList::at`; `orderAt` has the orderings of its statement. -/
def PlayList.at (orderAt : OrderBy Joined) (pos : Nat) (pl : PlayList) : Act Song := do
  let p ← pl.fields
  loadFirst <| (orderAt (quoteOnly p.orderBy ++ limitText pos 1)).map fun order =>
    ⟨fun db => (order db (db.joinedOf p.dbId)).map fun rows =>
      rows.map fun j => Song.ofRow j.entryId j.song⟩

/-- `CompletePlayList::at`. -/
def completeAt (env : Env) (pos : Nat) : Act Song := do
  let c := (← get).complete
  let order := if c.order = [] then lit "songs.title" else c.order
  loadFirst <| (env.orderComplete (order ++ PlayList.limitText pos 1)).map fun order =>
    ⟨fun db => (order db db.songs.rows).map fun rows =>
      rows.map fun r => Song.ofNamedRow db r.1 r.2⟩

/-! ## Orders -/

/-- The orders that `PlayList::set_order` puts together from columns, in both directions. -/
def storedBy (columns : List Bytes) : List Bytes :=
  columns.flatMap fun c =>
    [upperOrder c (lit "desc") (lit "asc") true, upperOrder c (lit "desc") (lit "asc") false]

/-- The orders that `CompletePlayList::set_order` puts together. -/
def completeBy (columns : List Bytes) : List Bytes :=
  columns.flatMap fun c =>
    [upperOrder c (lit "DESC") (lit "ASC") true, upperOrder c (lit "DESC") (lit "ASC") false]

/-- The columns that `songs` gives a name. -/
def namedColumns : List Bytes := [lit "artist", lit "album"]

/-- The orders of a playlist: the one that it is created with, and those by a column of the
list. -/
def storedOrders : List Bytes := lit "present_order desc" :: storedBy listColumns

/-- The orders of the instance. -/
def completeOrders : List Bytes := lit "songs.title" :: completeBy listColumns

/-- A limit behind the order takes so many rows. -/
def Limits {ρ : Type} (orderBy : OrderBy ρ) (text : Bytes) : Prop :=
  ∀ start limit, start < 2 ^ 32 → 0 < limit → limit < 2 ^ 32 →
    orderBy (text ++ PlayList.limitText start limit) = (orderBy text).map fun order db rows =>
      (order db rows).map fun sorted => (sorted.drop start).take limit

/-- What SQLite makes of the orders. -/
structure Env.Orders (env : Env) (orderAt : OrderBy Joined) : Prop where
  joined : ∀ text ∈ storedOrders, Limits env.orderJoined text ∧
    ∃ order, env.orderJoined text = some order ∧ Permutes order
  complete : ∀ text ∈ completeOrders, Limits env.orderComplete text ∧
    ∃ order, env.orderComplete text = some order ∧ Permutes order
  limitsAt : ∀ text ∈ storedOrders, Limits orderAt text
  /-- The rows of both statements come out in one order. -/
  same : ∀ text ∈ storedOrders, text ∉ storedBy namedColumns → orderAt text = env.orderJoined text
  /-- No column has the name of an artist or an album. -/
  unnamed : ∀ text ∈ storedBy namedColumns, orderAt text = none

/-! ## Songs that agree -/

/-- The song without the names that it keeps. -/
def Song.bare (s : Song) : Song := { s with artistName := [], albumName := [] }

/-- The songs have one `db_id`, the same fields and the same names. -/
structure Song.Agrees (w : World) (s t : Song) : Prop where
  bare : s.bare = t.bare
  artist : outcome s.nameOfArtist w = outcome t.nameOfArtist w
  album : outcome s.nameOfAlbum w = outcome t.nameOfAlbum w

section

variable {w : World}

/-- A song finds the names that the list has with it. -/
theorem ofRow_agrees (hs : w.stale = false) (id : Int) (row : SongRow) :
    (Song.ofRow id row).Agrees w (.ofNamedRow w.db id row) := by
  refine ⟨rfl, ?_, ?_⟩
  · rw [Song.nameOfArtist, Song.nameOfArtist]
    by_cases hname : w.db.artistName row.artistId = []
    · rw [if_pos (show (Song.ofRow id row).artistName = [] from rfl),
        if_pos (show (Song.ofNamedRow w.db id row).artistName = [] from hname)]
      rfl
    · rw [if_pos (show (Song.ofRow id row).artistName = [] from rfl),
        if_neg (show (Song.ofNamedRow w.db id row).artistName ≠ [] from hname)]
      unfold Database.artistName at hname
      cases hrow : w.db.artists.lookup row.artistId with
      | none => simp [hrow] at hname
      | some a =>
        have hload : outcome (Song.artist (.ofRow id row)) w = .ok (.ofRow row.artistId a) := by
          simp [Song.artist, Song.ofRow, Artist.load, loadRow, outcome_loadOne, hs, hrow]
        rw [outcome_bind_ok hload]
        simp [Song.ofNamedRow, Database.artistName, hrow, Artist.ofRow]
  · rw [Song.nameOfAlbum, Song.nameOfAlbum]
    by_cases hname : w.db.albumName row.albumId = []
    · rw [if_pos (show (Song.ofRow id row).albumName = [] from rfl),
        if_pos (show (Song.ofNamedRow w.db id row).albumName = [] from hname)]
      rfl
    · rw [if_pos (show (Song.ofRow id row).albumName = [] from rfl),
        if_neg (show (Song.ofNamedRow w.db id row).albumName ≠ [] from hname)]
      unfold Database.albumName at hname
      cases hrow : w.db.albums.lookup row.albumId with
      | none => simp [hrow] at hname
      | some a =>
        have hload : outcome (Song.album (.ofRow id row)) w = .ok (.ofRow row.albumId a) := by
          simp [Song.album, Song.ofRow, Album.load, loadRow, outcome_loadOne, hs, hrow]
        rw [outcome_bind_ok hload]
        simp [Song.ofNamedRow, Database.albumName, hrow, Album.ofRow]

/-- Two songs from one row agree if they have one rowid. -/
theorem agrees_iff (hs : w.stale = false) {id id' : Int} {row : SongRow} :
    (Song.ofRow id row).Agrees w (.ofNamedRow w.db id' row) ↔ id = id' := by
  constructor
  · intro h
    exact congrArg Song.dbId h.bare
  · rintro rfl
    exact ofRow_agrees hs id row

/-- The song in front of the rows that a statement lists. -/
theorem loadFirst_returns {α : Type} {rs : ResultSet α} {a : α} {l : List α} (hs : w.stale = false)
    (h : rs.rows w.db = some (a :: l)) : Returns (loadFirst (some rs)) w a w := by
  have hstored : Returns (loadStored (some rs)) w rs w := by
    refine ⟨?_, ?_⟩
    · rw [outcome_loadStored]
      simp [hs]
    · rw [after_loadStored]
      simp
  have hbegin : Returns rs.begin w (a :: l) w := by
    refine ⟨?_, after_begin _ _⟩
    rw [outcome_begin, h]
  exact hstored.bind (hbegin.bind (Returns.pure a w))

/-- A statement that is refused lists nothing. -/
theorem loadFirst_refused {α : Type} {a : α} {w' : World} :
    ¬Returns (loadFirst (none : Option (ResultSet α))) w a w' := by
  intro h
  have hrun := h.outcome
  unfold loadFirst at hrun
  rw [outcome_bind, outcome_loadStored] at hrun
  cases hrun

/-! ## The listings -/

/-- The songs that `songs( start, limit )` lists. -/
def ListsSongs (env : Env) (pl : PlayList) (w : World) (start limit : Nat) (l : List Song) : Prop :=
  ∃ rs, Returns (pl.songs env start limit) w rs w ∧ rs.rows w.db = some l

/-- With a limit `songs` lists so many of the songs. -/
def Cut (env : Env) (pl : PlayList) (w : World) (l : List Song) : Prop :=
  ∀ start limit, start < 2 ^ 32 → 0 < limit → limit < 2 ^ 32 →
    ListsSongs env pl w start limit ((l.drop start).take limit)

omit [Affinity] in
theorem quoteOnly_storedOrders : ∀ text ∈ storedOrders, quoteOnly text = text := by
  decide +kernel

theorem songs_returns {env : Env} {pl : PlayList} {start limit : Nat} {rs : ResultSet Song}
    (hs : w.stale = false) (h : pl.songsStatement env start limit w.complete = some rs) :
    Returns (pl.songs env start limit) w rs w := by
  refine ⟨?_, ?_⟩
  · rw [PlayList.outcome_songs, h]
    simp [hs]
  · rw [PlayList.after_songs, h]
    simp

/-- What `at` gives for an index, where its statement is accepted. -/
theorem at_returns {orderAt : OrderBy Joined} {p : PlayListFields} {pos : Nat}
    {order : Database → List Joined → Option (List Joined)} {sorted : List Joined}
    (hs : w.stale = false) (hquote : quoteOnly p.orderBy = p.orderBy)
    (horder : orderAt (p.orderBy ++ PlayList.limitText pos 1) = some order)
    (hrows : order w.db (w.db.joinedOf p.dbId) = some ((sorted.drop pos).take 1))
    (hpos : pos < sorted.length) :
    Returns (PlayList.at orderAt pos (.stored p)) w
      (.ofRow sorted[pos].entryId sorted[pos].song) w := by
  have hfields : Returns (PlayList.stored p).fields w p w := ⟨rfl, rfl⟩
  refine hfields.bind ?_
  rw [hquote, horder]
  refine loadFirst_returns (l := []) hs ?_
  rw [List.drop_eq_getElem_cons hpos] at hrows
  simp only [hrows]
  rfl

/-- What `CompletePlayList::at` gives for an index. -/
theorem completeAt_returns {env : Env} {pos : Nat} {text : Bytes}
    {order : Database → List (Int × SongRow) → Option (List (Int × SongRow))}
    {sorted : List (Int × SongRow)} (hs : w.stale = false)
    (htext : (if w.complete.order = [] then lit "songs.title" else w.complete.order) = text)
    (horder : env.orderComplete (text ++ PlayList.limitText pos 1) = some order)
    (hrows : order w.db w.db.songs.rows = some ((sorted.drop pos).take 1))
    (hpos : pos < sorted.length) :
    Returns (completeAt env pos) w (.ofNamedRow w.db sorted[pos].1 sorted[pos].2) w := by
  have hget : Returns (get : Act World) w w w := ⟨rfl, rfl⟩
  refine hget.bind ?_
  dsimp only
  rw [htext, horder]
  refine loadFirst_returns (l := []) hs ?_
  rw [List.drop_eq_getElem_cons hpos] at hrows
  simp only [hrows]
  rfl

/-- `songs` of a playlist lists the rows that its order gives out. -/
theorem listsSongs_stored {env : Env} {p : PlayListFields} {start limit : Nat}
    {order : Database → List Joined → Option (List Joined)} {sorted : List Joined}
    (hs : w.stale = false) (hquote : quoteOnly p.orderBy = p.orderBy)
    (horder : env.orderJoined (p.orderBy ++ PlayList.limitText start limit) = some order)
    (hrows : order w.db (w.db.joinedOf p.dbId) = some sorted) :
    ListsSongs env (.stored p) w start limit
      (sorted.map fun j => .ofNamedRow w.db j.songId j.song) := by
  refine ⟨_, songs_returns hs (by rw [PlayList.songsStatement, hquote, horder]; rfl), ?_⟩
  simp only [hrows]
  rfl

/-- `songs` of the instance lists the rows that its order gives out. -/
theorem listsSongs_complete {env : Env} {start limit : Nat} {text : Bytes}
    {order : Database → List (Int × SongRow) → Option (List (Int × SongRow))}
    {sorted : List (Int × SongRow)} (hs : w.stale = false)
    (htext : (if w.complete.order = [] then lit "songs.title" else w.complete.order) = text)
    (horder : env.orderComplete (text ++ PlayList.limitText start limit) = some order)
    (hrows : order w.db w.db.songs.rows = some sorted) :
    ListsSongs env .complete w start limit
      (sorted.map fun r => .ofNamedRow w.db r.1 r.2) := by
  refine ⟨⟨fun db => (order db db.songs.rows).map fun rows =>
    rows.map fun r => .ofNamedRow db r.1 r.2⟩, songs_returns hs ?_, ?_⟩
  · simp only [PlayList.songsStatement, htext, horder, Option.map_some]
  · simp only [hrows]
    rfl

/-- The rows of a limited order. -/
theorem Limits.rows {ρ : Type} {orderBy : OrderBy ρ} {text : Bytes} {db : Database}
    {order : Database → List ρ → Option (List ρ)} {rows sorted : List ρ} {start limit : Nat}
    (h : Limits orderBy text) (horder : orderBy text = some order)
    (hrows : order db rows = some sorted) (hstart : start < 2 ^ 32) (hpos : 0 < limit)
    (hlimit : limit < 2 ^ 32) :
    ∃ cut, orderBy (text ++ PlayList.limitText start limit) = some cut ∧
      cut db rows = some ((sorted.drop start).take limit) := by
  rw [h start limit hstart hpos hlimit, horder]
  refine ⟨_, rfl, ?_⟩
  simp only [hrows, Option.map_some]

/-- The songs of a playlist, and those that `at` gives. -/
theorem at_stored {env : Env} {orderAt : OrderBy Joined} {p : PlayListFields}
    (hsql : env.Orders orderAt) (hs : w.stale = false) (hp : p.orderBy ∈ storedOrders) :
    ∃ sorted : List Joined, sorted.Perm (w.db.joinedOf p.dbId) ∧
      ListsSongs env (.stored p) w 0 0
        (sorted.map fun j => .ofNamedRow w.db j.songId j.song) ∧
      Cut env (.stored p) w (sorted.map fun j => .ofNamedRow w.db j.songId j.song) ∧
      ∀ pos (h : pos < sorted.length), pos < 2 ^ 32 →
        ((∃ s, Returns (PlayList.at orderAt pos (.stored p)) w s w ∧
            s.Agrees w (.ofNamedRow w.db sorted[pos].songId sorted[pos].song)) ↔
          p.orderBy ∉ storedBy namedColumns ∧ sorted[pos].entryId = sorted[pos].songId) := by
  have hquote := quoteOnly_storedOrders _ hp
  obtain ⟨hlimits, order, horder, hperm⟩ := hsql.joined _ hp
  obtain ⟨sorted, hrows, hsorted⟩ := hperm w.db (w.db.joinedOf p.dbId)
  refine ⟨sorted, hsorted, ?_, ?_, ?_⟩
  · refine listsSongs_stored hs hquote ?_ hrows
    rw [PlayList.limitText, if_pos rfl, List.append_nil, horder]
  · intro start limit hstart hpos hlimit
    obtain ⟨cut, hcut, hcutRows⟩ := hlimits.rows horder hrows hstart hpos hlimit
    rw [← List.map_drop, ← List.map_take]
    exact listsSongs_stored hs hquote hcut hcutRows
  · intro pos hpos hsmall
    by_cases hnamed : p.orderBy ∈ storedBy namedColumns
    · -- The statement of `at` is refused.
      refine iff_of_false ?_ fun h => h.1 hnamed
      rintro ⟨s, hret, -⟩
      have hfields : Returns (PlayList.stored p).fields w p w := ⟨rfl, rfl⟩
      have hnone : orderAt (p.orderBy ++ PlayList.limitText pos 1) = none := by
        rw [hsql.limitsAt _ hp pos 1 hsmall (by omega) (by omega), hsql.unnamed _ hnamed]
        rfl
      have hrun := hret.outcome
      have hafter := hret.after
      unfold PlayList.at at hrun hafter
      rw [outcome_bind_ok hfields.outcome, hfields.after, hquote, hnone, Option.map_none] at hrun
      rw [after_bind_ok hfields.outcome, hfields.after, hquote, hnone, Option.map_none] at hafter
      exact loadFirst_refused ⟨hrun, hafter⟩
    · have horderAt : orderAt p.orderBy = some order := (hsql.same _ hp hnamed).trans horder
      obtain ⟨cut, hcut, hcutRows⟩ := (hsql.limitsAt _ hp).rows horderAt hrows hsmall
        Nat.one_pos (by omega)
      have hat := at_returns hs hquote hcut hcutRows hpos
      rw [and_iff_right hnamed, ← agrees_iff hs]
      constructor
      · rintro ⟨s, hret, hagrees⟩
        have heq : s = .ofRow sorted[pos].entryId sorted[pos].song :=
          Except.ok.inj (hret.outcome.symm.trans hat.outcome)
        rwa [heq] at hagrees
      · exact fun hagrees => ⟨_, hat, hagrees⟩

/-- The songs of the library, and those that `at` gives. -/
theorem at_complete {env : Env} {orderAt : OrderBy Joined} (hsql : env.Orders orderAt)
    (hs : w.stale = false)
    (hc : w.complete.order = [] ∨ w.complete.order ∈ completeBy listColumns) :
    ∃ sorted : List (Int × SongRow), sorted.Perm w.db.songs.rows ∧
      ListsSongs env .complete w 0 0 (sorted.map fun r => .ofNamedRow w.db r.1 r.2) ∧
      Cut env .complete w (sorted.map fun r => .ofNamedRow w.db r.1 r.2) ∧
      ∀ pos (h : pos < sorted.length), pos < 2 ^ 32 →
        Returns (completeAt env pos) w (.ofNamedRow w.db sorted[pos].1 sorted[pos].2) w := by
  obtain ⟨text, htext, hmem⟩ : ∃ text,
      (if w.complete.order = [] then lit "songs.title" else w.complete.order) = text ∧
        text ∈ completeOrders := by
    refine ⟨_, rfl, ?_⟩
    split
    · exact List.mem_cons_self
    · rename_i hne
      exact List.mem_cons_of_mem _ (hc.resolve_left hne)
  obtain ⟨hlimits, order, horder, hperm⟩ := hsql.complete _ hmem
  obtain ⟨sorted, hrows, hsorted⟩ := hperm w.db w.db.songs.rows
  refine ⟨sorted, hsorted, ?_, ?_, ?_⟩
  · refine listsSongs_complete hs htext ?_ hrows
    rw [PlayList.limitText, if_pos rfl, List.append_nil, horder]
  · intro start limit hstart hpos hlimit
    obtain ⟨cut, hcut, hcutRows⟩ := hlimits.rows horder hrows hstart hpos hlimit
    rw [← List.map_drop, ← List.map_take]
    exact listsSongs_complete hs htext hcut hcutRows
  · intro pos hpos hsmall
    obtain ⟨cut, hcut, hcutRows⟩ := hlimits.rows horder hrows hsmall Nat.one_pos (by omega)
    exact completeAt_returns hs htext hcut hcutRows hpos

/-- The songs of a playlist and of the library are listed in the order, and cut by a limit; `at`
gives the song that the list has at the index if and only if the order names no artist or album and
the rowid of the entry is that of its song. -/
theorem at_iff {env : Env} {orderAt : OrderBy Joined} {p : PlayListFields}
    (hsql : env.Orders orderAt) (hs : w.stale = false) (hp : p.orderBy ∈ storedOrders)
    (hc : w.complete.order = [] ∨ w.complete.order ∈ completeBy listColumns) :
    (∃ sorted : List Joined, sorted.Perm (w.db.joinedOf p.dbId) ∧
      ListsSongs env (.stored p) w 0 0
        (sorted.map fun j => .ofNamedRow w.db j.songId j.song) ∧
      Cut env (.stored p) w (sorted.map fun j => .ofNamedRow w.db j.songId j.song) ∧
      ∀ pos (h : pos < sorted.length), pos < 2 ^ 32 →
        ((∃ s, Returns (PlayList.at orderAt pos (.stored p)) w s w ∧
            s.Agrees w (.ofNamedRow w.db sorted[pos].songId sorted[pos].song)) ↔
          p.orderBy ∉ storedBy namedColumns ∧ sorted[pos].entryId = sorted[pos].songId)) ∧
    ∃ sorted : List (Int × SongRow), sorted.Perm w.db.songs.rows ∧
      ListsSongs env .complete w 0 0 (sorted.map fun r => .ofNamedRow w.db r.1 r.2) ∧
      Cut env .complete w (sorted.map fun r => .ofNamedRow w.db r.1 r.2) ∧
      ∀ pos (h : pos < sorted.length), pos < 2 ^ 32 →
        Returns (completeAt env pos) w (.ofNamedRow w.db sorted[pos].1 sorted[pos].2) w :=
  ⟨at_stored hsql hs hp, at_complete hsql hs hc⟩

end

/-! ## Surroundings -/

/-- The text in front of ` limit ` and the one behind it. -/
def cutLimit : Bytes → Option (Bytes × Bytes)
  | [] => none
  | b :: rest =>
    if (lit " limit ").isPrefixOf (b :: rest) then some ([], (b :: rest).drop 7)
    else (cutLimit rest).map fun c => (b :: c.1, c.2)

/-- The rows that a limit behind the order takes. -/
def limited {ρ : Type} (orderBy : OrderBy ρ) : OrderBy ρ := fun text =>
  match cutLimit text with
  | none => orderBy text
  | some (text, numbers) =>
    match lexicalCastUnsigned 32 (numbers.takeWhile (· != 44)),
      lexicalCastUnsigned 32 (numbers.dropWhile (· != 44)).tail with
    | some start, some limit => (orderBy text).map fun order db rows =>
        (order db rows).map fun sorted => (sorted.drop start).take limit
    | _, _ => none

/-- No limit is in the text or begins in it. -/
def unlimited : Bytes → Bool
  | [] => true
  | b :: rest => !(lit " limit ").isPrefixOf (b :: rest ++ lit " limit ") && unlimited rest

/-- `Env.evaluating` with limits. -/
def Env.limiting : Env where
  __ := Env.evaluating
  orderJoined := limited Env.sorting.orderJoined
  orderComplete := limited Env.sorting.orderComplete

/-- The orderings of `PlayList::at`. -/
def orderAt : OrderBy Joined :=
  limited fun text => if text ∈ storedBy namedColumns then none else Env.sorting.orderJoined text

section

variable {ρ : Type} {orderBy : OrderBy ρ} {text : Bytes}

omit [Affinity] in
theorem cutLimit_append (h : unlimited text = true) (numbers : Bytes) :
    cutLimit (text ++ lit " limit " ++ numbers) = some (text, numbers) := by
  induction text with
  | nil => rfl
  | cons b rest ih =>
    obtain ⟨hhere, hrest⟩ := Bool.and_eq_true_iff.mp h
    have hno : ¬(lit " limit ").isPrefixOf (b :: (rest ++ lit " limit " ++ numbers)) = true := by
      intro hc
      have hprefix : lit " limit " <+: b :: rest ++ lit " limit " :=
        List.prefix_of_prefix_length_le (List.isPrefixOf_iff_prefix.mp hc)
          (by simp) (by
            rw [List.length_append]
            omega)
      rw [List.isPrefixOf_iff_prefix.mpr hprefix] at hhere
      cases hhere
    rw [List.cons_append, List.cons_append, cutLimit, if_neg hno, ih hrest]
    rfl

omit [Affinity] in
theorem cutLimit_none (h : unlimited text = true) : cutLimit text = none := by
  induction text with
  | nil => rfl
  | cons b rest ih =>
    obtain ⟨hhere, hrest⟩ := Bool.and_eq_true_iff.mp h
    have hno : ¬(lit " limit ").isPrefixOf (b :: rest) = true := by
      intro hc
      have hprefix := (List.isPrefixOf_iff_prefix.mp hc).trans
        (List.prefix_append (b :: rest) (lit " limit "))
      rw [List.isPrefixOf_iff_prefix.mpr hprefix] at hhere
      cases hhere
    rw [cutLimit, if_neg hno, ih hrest]
    rfl

theorem limited_of_unlimited (h : unlimited text = true) :
    limited orderBy text = orderBy text := by
  simp only [limited, cutLimit_none h]

theorem limits_limited (h : unlimited text = true) : Limits (limited orderBy) text := by
  intro start limit hstart hpos hlimit
  have hcut : cutLimit (text ++ PlayList.limitText start limit) =
      some (text, decimal start ++ 44 :: decimal limit) := by
    have hlit : lit "," ++ decimal limit = 44 :: decimal limit := rfl
    rw [PlayList.limitText, if_neg hpos.ne', List.append_assoc _ (lit ","), hlit,
      List.append_assoc, ← List.append_assoc]
    exact cutLimit_append h _
  have hcomma : ∀ b ∈ decimal start, (b != 44) = true := by
    intro b hb
    have := isDigit_of_mem_decimal hb
    rw [bne_iff_ne]
    rintro rfl
    exact absurd this (by decide)
  have htake : (decimal start ++ 44 :: decimal limit).takeWhile (· != 44) = decimal start := by
    rw [List.takeWhile_append_of_pos hcomma, List.takeWhile_cons_of_neg (by simp),
      List.append_nil]
  have hdrop : (decimal start ++ 44 :: decimal limit).dropWhile (· != 44) =
      44 :: decimal limit := by
    rw [List.dropWhile_append_of_pos hcomma, List.dropWhile_cons_of_neg (by simp)]
  rw [limited_of_unlimited h]
  simp only [limited, hcut, htake, hdrop, List.tail_cons, lexicalCastUnsigned_decimal hstart,
    lexicalCastUnsigned_decimal hlimit]

end

omit [Affinity] in
theorem unlimited_orders : ∀ text ∈ storedOrders ++ completeOrders, unlimited text = true := by
  decide +kernel

omit [Affinity] in
theorem namedColumn_stored : ∀ text ∈ storedBy listColumns,
    text ≠ lit "present_order desc" ∧
      (namedColumn (lit "desc") (lit "asc") text).isSome = true := by
  decide +kernel

omit [Affinity] in
theorem namedColumn_complete : ∀ text ∈ completeBy listColumns,
    text ≠ lit "songs.title" ∧ (namedColumn (lit "DESC") (lit "ASC") text).isSome = true := by
  decide +kernel

theorem Env.limiting_orders : Env.limiting.Orders orderAt where
  joined text ht := by
    have hun := unlimited_orders text (List.mem_append_left _ ht)
    refine ⟨limits_limited hun, ?_⟩
    rw [show Env.limiting.orderJoined text = _ from limited_of_unlimited hun]
    rcases List.mem_cons.mp ht with rfl | ht
    · exact ⟨_, rfl, fun _ rows => ⟨_, rfl, List.mergeSort_perm _ _⟩⟩
    · obtain ⟨hne, hsome⟩ := namedColumn_stored text ht
      obtain ⟨c, hc⟩ := Option.isSome_iff_exists.mp hsome
      refine ⟨fun db rows => some (sortUpper (fun j => columnText db j.song c.1) c.2 rows), ?_,
        fun _ rows => ⟨_, rfl, sortUpper_perm _ _ _⟩⟩
      simp only [Env.sorting, if_neg hne, hc, Option.map_some]
  complete text ht := by
    have hun := unlimited_orders text (List.mem_append_right _ ht)
    refine ⟨limits_limited hun, ?_⟩
    rw [show Env.limiting.orderComplete text = _ from limited_of_unlimited hun]
    rcases List.mem_cons.mp ht with rfl | ht
    · exact ⟨_, rfl, fun _ rows => ⟨_, rfl, List.mergeSort_perm _ _⟩⟩
    · obtain ⟨hne, hsome⟩ := namedColumn_complete text ht
      obtain ⟨c, hc⟩ := Option.isSome_iff_exists.mp hsome
      refine ⟨sortComplete c, ?_, fun _ rows => ⟨_, rfl, sortUpper_perm _ _ _⟩⟩
      simp only [Env.sorting, if_neg hne, hc, Option.map_some]
  limitsAt text ht := limits_limited (unlimited_orders text (List.mem_append_left _ ht))
  same text ht hnamed := by
    have hun := unlimited_orders text (List.mem_append_left _ ht)
    rw [show Env.limiting.orderJoined text = _ from limited_of_unlimited hun,
      orderAt, limited_of_unlimited hun, if_neg hnamed]
  unnamed text ht := by
    have hstored : text ∈ storedOrders := by
      revert text
      decide +kernel
    rw [orderAt, limited_of_unlimited (unlimited_orders text (List.mem_append_left _ hstored)),
      if_pos ht]

/-- A database with one song, which stands in the playlist 2 by the entry with a rowid. -/
def oneEntry (entryId : Int) : Database :=
  { Database.empty with
    songs := .single 1 ⟨1, 1, 1, .empty, .empty, 0, 0, 0, 0⟩
    playlistSongs := .single entryId ⟨1, 1, 2⟩ }

/-- A playlist as it is created. -/
def newPlayList : PlayListFields := ⟨2, lit "a", [], lit "present_order desc", 0⟩

/-- A database with two songs, which stand in the playlist 2 by entries with the rowids of the
songs. -/
def twoEntries : Database :=
  { oneEntry 1 with
    songs := (oneEntry 1).songs.insert ⟨1, 1, 1, .empty, .empty, 0, 0, 0, 0⟩
    playlistSongs := (oneEntry 1).playlistSongs.insert ⟨2, 2, 2⟩ }

omit [Affinity] in
/-- The entries have the rowids of their songs: `at` gives both songs, as they are listed. -/
theorem at_each : ∃ _ : Affinity, ∃ sorted : List Joined, sorted.length = 2 ∧
    ListsSongs .limiting (.stored newPlayList) (.start twoEntries) 0 0
        (sorted.map fun j => .ofNamedRow twoEntries j.songId j.song) ∧
      ∀ pos (h : pos < sorted.length), ∃ s,
        Returns (PlayList.at orderAt pos (.stored newPlayList)) (.start twoEntries) s
            (.start twoEntries) ∧
          s.Agrees (.start twoEntries)
            (.ofNamedRow twoEntries sorted[pos].songId sorted[pos].song) := by
  let _ := integerAffinity
  obtain ⟨⟨sorted, hperm, hlist, -, hat⟩, -⟩ := at_iff (w := .start twoEntries)
    (p := newPlayList) Env.limiting_orders rfl List.mem_cons_self (.inl rfl)
  have hrowid : ∀ j ∈ twoEntries.joinedOf 2, j.entryId = j.songId := by decide
  have hlength : sorted.length = 2 := hperm.length_eq
  refine ⟨integerAffinity, sorted, hlength, hlist, fun pos h => ?_⟩
  have hmem := hperm.mem_iff.mp (List.getElem_mem h)
  exact (hat pos h (by omega)).mpr ⟨by decide +kernel, hrowid _ hmem⟩

omit [Affinity] in
/-- The entry has another rowid than its song, and `at` gives the song that one as its `db_id`. -/
theorem at_entry : ∃ _ : Affinity,
    ListsSongs .limiting (.stored newPlayList) (.start (oneEntry 2)) 0 0
        [.ofNamedRow (oneEntry 2) 1 ⟨1, 1, 1, .empty, .empty, 0, 0, 0, 0⟩] ∧
      ¬∃ s, Returns (PlayList.at orderAt 0 (.stored newPlayList)) (.start (oneEntry 2)) s
          (.start (oneEntry 2)) ∧
        s.Agrees (.start (oneEntry 2))
          (.ofNamedRow (oneEntry 2) 1 ⟨1, 1, 1, .empty, .empty, 0, 0, 0, 0⟩) := by
  let _ := integerAffinity
  obtain ⟨sorted, hperm, hlist, -, hat⟩ := at_stored (w := .start (oneEntry 2))
    (p := newPlayList) Env.limiting_orders rfl List.mem_cons_self
  obtain rfl : sorted = [⟨1, ⟨1, 1, 1, .empty, .empty, 0, 0, 0, 0⟩, 2, ⟨1, 1, 2⟩⟩] :=
    List.perm_singleton.mp hperm
  refine ⟨integerAffinity, hlist, fun h => ?_⟩
  exact absurd ((hat 0 (by decide) (by decide)).mp h).2 (by decide)

end Spinny

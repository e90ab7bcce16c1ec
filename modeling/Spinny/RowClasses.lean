import Spinny.Boost.PosixTime
import Spinny.Sqlite.Store

/-!
# The row classes

What the six subclasses of `sqlite::table` stream into an `insert` and an `update`, and what they
read of a row. Each class has four lists of its fields: the description, the inserted values, the
assignments and `initialize_from_db`.

* `Row`: an object of any of the classes, without its `_id`.
* `Row.literals`: the values of an object, in the order of its description.
* `tableInsertValues_eq`, `tableUpdateValues_eq`: both texts stream these values.
* `updates_iff`: which objects can be saved again; `loadsBack_iff`: which come back as they were.
-/

namespace Spinny.Rows

open Bytes Boost Sqlite Proc

/-! ## The classes -/

structure Song where
  dirId : Int64
  artistId : Int64
  albumId : Int64
  fileName : Bytes
  title : Bytes
  track : Int32
  length : Int32
  bitrate : Int32
  year : Int32
  deriving DecidableEq

structure Artist where
  name : Bytes
  deriving DecidableEq

structure Album where
  name : Bytes
  deriving DecidableEq

structure PlayList where
  name : Bytes
  description : Bytes
  orderBy : Bytes
  presentOrder : Int32
  deriving DecidableEq

structure MusicDir where
  parentId : Int64
  name : Bytes
  deriving DecidableEq

structure User where
  login : Bytes
  password : Bytes
  ticket : Bytes
  lastVisit : PTime
  role : Int32
  deriving DecidableEq

namespace Song

/-- `song_desc`. -/
def tableDescription : Description where
  tableName := lit "songs"
  fields := [lit "dir_id", lit "artist_id", lit "album_id", lit "file_name", lit "title",
    lit "track", lit "length", lit "bitrate", lit "year"]

/-- `field_types`. -/
def fieldTypes : List Bytes :=
  [lit "integer", lit "integer", lit "integer", lit "string", lit "string", lit "integer",
    lit "integer", lit "integer", lit "integer"]

def tableInsertValues (s : Song) : Bytes :=
  showInt s.dirId.toInt ++ lit "," ++ showInt s.artistId.toInt ++ lit "," ++
    showInt s.albumId.toInt ++ lit "," ++ q s.fileName ++ lit "," ++ q s.title ++ lit "," ++
    showInt s.track.toInt ++ lit "," ++ showInt s.length.toInt ++ lit "," ++
    showInt s.bitrate.toInt ++ lit "," ++ showInt s.year.toInt

/-- The first three fields have no commas between them, and `length` no `=`. -/
def tableUpdateValues (s : Song) : Bytes :=
  lit "dir_id=" ++ showInt s.dirId.toInt ++ lit "artist_id=" ++ showInt s.artistId.toInt ++
    lit "album_id=" ++ showInt s.albumId.toInt ++ lit ",file_name=" ++ q s.fileName ++
    lit ",title=" ++ q s.title ++ lit ",track=" ++ showInt s.track.toInt ++ lit ",length" ++
    showInt s.length.toInt ++ lit ",bitrate=" ++ showInt s.bitrate.toInt ++ lit ",year=" ++
    showInt s.year.toInt

def initializeFromDb [Affinity] (row : List Value) : Option Song := do
  return { dirId := ← getId row 0, artistId := ← getId row 1, albumId := ← getId row 2,
           fileName := ← getString row 3, title := ← getString row 4, track := ← getInt row 5,
           length := ← getInt row 6, bitrate := ← getInt row 7, year := ← getInt row 8 }

end Song

namespace Artist

/-- `artist_desc`. -/
def tableDescription : Description where
  tableName := lit "artists"
  fields := [lit "name"]

/-- `field_types`. -/
def fieldTypes : List Bytes := [lit "string"]

def tableInsertValues (a : Artist) : Bytes := q a.name

def tableUpdateValues (a : Artist) : Bytes := lit "name=" ++ q a.name

def initializeFromDb [Affinity] (row : List Value) : Option Artist := do
  return { name := ← getString row 0 }

end Artist

namespace Album

/-- `album_desc`. -/
def tableDescription : Description where
  tableName := lit "albums"
  fields := [lit "name"]

/-- `field_types`. -/
def fieldTypes : List Bytes := [lit "string"]

def tableInsertValues (a : Album) : Bytes := q a.name

def tableUpdateValues (a : Album) : Bytes := lit "name=" ++ q a.name

def initializeFromDb [Affinity] (row : List Value) : Option Album := do
  return { name := ← getString row 0 }

end Album

namespace PlayList

/-- `pl_desc`. -/
def tableDescription : Description where
  tableName := lit "playlists"
  fields := [lit "name", lit "description", lit "order_by", lit "present_order"]

/-- `field_types`. -/
def fieldTypes : List Bytes := [lit "string", lit "string", lit "string", lit "int"]

def tableInsertValues (p : PlayList) : Bytes :=
  q p.name ++ lit "," ++ q p.description ++ lit "," ++ q p.orderBy ++ lit "," ++
    showInt p.presentOrder.toInt

def tableUpdateValues (p : PlayList) : Bytes :=
  lit "name=" ++ q p.name ++ lit ",description=" ++ q p.description ++ lit ",order_by=" ++
    q p.orderBy ++ lit ",present_order=" ++ showInt p.presentOrder.toInt

def initializeFromDb [Affinity] (row : List Value) : Option PlayList := do
  return { name := ← getString row 0, description := ← getString row 1,
           orderBy := ← getString row 2, presentOrder := ← getInt row 3 }

end PlayList

namespace MusicDir

/-- `md_desc`. -/
def tableDescription : Description where
  tableName := lit "music_dirs"
  fields := [lit "parent_id", lit "name"]

/-- `field_types`. -/
def fieldTypes : List Bytes := [lit "int", lit "string"]

def tableInsertValues (d : MusicDir) : Bytes := showInt d.parentId.toInt ++ lit "," ++ q d.name

def tableUpdateValues (d : MusicDir) : Bytes :=
  lit "parent_id=" ++ showInt d.parentId.toInt ++ lit ",name=" ++ q d.name

/-- The parent is read as an `int`. -/
def initializeFromDb [Affinity] (row : List Value) : Option MusicDir := do
  return { parentId := (← getInt row 0).toInt64, name := ← getString row 1 }

end MusicDir

namespace User

/-- `user_desc`. -/
def tableDescription : Description where
  tableName := lit "users"
  fields := [lit "login", lit "password", lit "ticket", lit "last_visit", lit "role"]

/-- `field_types`. -/
def fieldTypes : List Bytes :=
  [lit "string", lit "string", lit "string", lit "string", lit "int"]

def tableInsertValues (u : User) : Bytes :=
  q u.login ++ lit "," ++ q u.password ++ lit "," ++ q u.ticket ++ lit "," ++
    q u.lastVisit.toIsoString ++ lit "," ++ showInt u.role.toInt

def tableUpdateValues (u : User) : Bytes :=
  lit "login=" ++ q u.login ++ lit ",password=" ++ q u.password ++ lit ",ticket=" ++ q u.ticket ++
    lit ",last_visit=" ++ q u.lastVisit.toIsoString ++ lit ",role=" ++ showInt u.role.toInt

def initializeFromDb [Affinity] (row : List Value) : Option User := do
  return { login := ← getString row 0, password := ← getString row 1, ticket := ← getString row 2,
           lastVisit := ← fromIsoString (← getString row 3), role := ← getInt row 4 }

end User

/-! ## Any of them -/

/-- An object of a row class. -/
inductive Row where
  | song (s : Song)
  | artist (a : Artist)
  | album (a : Album)
  | playList (p : PlayList)
  | musicDir (d : MusicDir)
  | user (u : User)
  deriving DecidableEq

namespace Row

/-- `m_table_description`. -/
def tableDescription : Row → Description
  | song _ => Song.tableDescription
  | artist _ => Artist.tableDescription
  | album _ => Album.tableDescription
  | playList _ => PlayList.tableDescription
  | musicDir _ => MusicDir.tableDescription
  | user _ => User.tableDescription

/-- `field_types`. -/
def fieldTypes : Row → List Bytes
  | song _ => Song.fieldTypes
  | artist _ => Artist.fieldTypes
  | album _ => Album.fieldTypes
  | playList _ => PlayList.fieldTypes
  | musicDir _ => MusicDir.fieldTypes
  | user _ => User.fieldTypes

def tableInsertValues : Row → Bytes
  | song s => s.tableInsertValues
  | artist a => a.tableInsertValues
  | album a => a.tableInsertValues
  | playList p => p.tableInsertValues
  | musicDir d => d.tableInsertValues
  | user u => u.tableInsertValues

def tableUpdateValues : Row → Bytes
  | song s => s.tableUpdateValues
  | artist a => a.tableUpdateValues
  | album a => a.tableUpdateValues
  | playList p => p.tableUpdateValues
  | musicDir d => d.tableUpdateValues
  | user u => u.tableUpdateValues

/-- `initialize_from_db` of a new object of the class of `r`. -/
def initializeFromDb [Affinity] (r : Row) (row : List Value) : Option Row :=
  match r with
  | song _ => (Song.initializeFromDb row).map .song
  | artist _ => (Artist.initializeFromDb row).map .artist
  | album _ => (Album.initializeFromDb row).map .album
  | playList _ => (PlayList.initializeFromDb row).map .playList
  | musicDir _ => (MusicDir.initializeFromDb row).map .musicDir
  | user _ => (User.initializeFromDb row).map .user

/-- The object with `db_id()` `id`, as `save` sees it. -/
def saved (r : Row) (id : Int64) : Saved := ⟨id.toInt, r.tableInsertValues, r.tableUpdateValues⟩

/-- The values of the fields, in the order of the description. -/
def literals : Row → List Literal
  | song s => [.int s.dirId.toInt, .int s.artistId.toInt, .int s.albumId.toInt, .text s.fileName,
      .text s.title, .int s.track.toInt, .int s.length.toInt, .int s.bitrate.toInt,
      .int s.year.toInt]
  | artist a => [.text a.name]
  | album a => [.text a.name]
  | playList p => [.text p.name, .text p.description, .text p.orderBy, .int p.presentOrder.toInt]
  | musicDir d => [.int d.parentId.toInt, .text d.name]
  | user u => [.text u.login, .text u.password, .text u.ticket, .text u.lastVisit.toIsoString,
      .int u.role.toInt]

/-- The string fields. -/
def strings : Row → List Bytes
  | song s => [s.fileName, s.title]
  | artist a => [a.name]
  | album a => [a.name]
  | playList p => [p.name, p.description, p.orderBy]
  | musicDir d => [d.name]
  | user u => [u.login, u.password, u.ticket]

/-- The object is a `Song`. -/
def isSong : Row → Bool
  | song _ => true
  | _ => false

/-! ## The lists of fields agree -/

/-- The names and types of every class are names to SQLite, and no name comes twice. -/
theorem columns (r : Row) : r.tableDescription.Columns r.fieldTypes := by
  cases r with
  | song => exact .of Song.tableDescription Song.fieldTypes (by decide)
  | artist => exact .of Artist.tableDescription Artist.fieldTypes (by decide)
  | album => exact .of Album.tableDescription Album.fieldTypes (by decide)
  | playList => exact .of PlayList.tableDescription PlayList.fieldTypes (by decide)
  | musicDir => exact .of MusicDir.tableDescription MusicDir.fieldTypes (by decide)
  | user => exact .of User.tableDescription User.fieldTypes (by decide)

theorem fieldTypes_isField (r : Row) : ∀ ty ∈ r.fieldTypes, isField ty = true := by
  have h : ∀ ty ∈ [lit "integer", lit "int", lit "string"], isField ty = true := by decide
  refine fun ty hty => h ty ?_
  cases r with
  | song => exact (by decide : ∀ ty ∈ Song.fieldTypes, ty ∈ _) ty hty
  | artist => exact (by decide : ∀ ty ∈ Artist.fieldTypes, ty ∈ _) ty hty
  | album => exact (by decide : ∀ ty ∈ Album.fieldTypes, ty ∈ _) ty hty
  | playList => exact (by decide : ∀ ty ∈ PlayList.fieldTypes, ty ∈ _) ty hty
  | musicDir => exact (by decide : ∀ ty ∈ MusicDir.fieldTypes, ty ∈ _) ty hty
  | user => exact (by decide : ∀ ty ∈ User.fieldTypes, ty ∈ _) ty hty

theorem length_literals (r : Row) : r.tableDescription.fields.length = r.literals.length := by
  cases r <;> rfl

theorem literals_ne (r : Row) : r.literals ≠ [] := by
  cases r <;> simp [literals]

/-- The inserted values, separated by commas. -/
theorem tableInsertValues_eq (r : Row) :
    r.tableInsertValues = joinWith 44 (r.literals.map Literal.sql) := by
  have hc : lit "," = [44] := by decide
  cases r <;>
    simp [tableInsertValues, Song.tableInsertValues, Artist.tableInsertValues,
      Album.tableInsertValues, PlayList.tableInsertValues, MusicDir.tableInsertValues,
      User.tableInsertValues, literals, joinWith, Literal.sql, hc]

/-- The assignments of the values, except for a `Song`. -/
theorem tableUpdateValues_eq {r : Row} (h : r.isSong = false) :
    r.tableUpdateValues =
      joinWith 44 ((r.tableDescription.fields.zip r.literals).map assignmentSql) := by
  cases r with
  | song => cases h
  | artist a =>
    have h₁ : lit "name=" = lit "name" ++ [61] := by decide
    simp [tableUpdateValues, Artist.tableUpdateValues, literals, tableDescription,
      Artist.tableDescription, joinWith, assignmentSql, Literal.sql, h₁]
  | album a =>
    have h₁ : lit "name=" = lit "name" ++ [61] := by decide
    simp [tableUpdateValues, Album.tableUpdateValues, literals, tableDescription,
      Album.tableDescription, joinWith, assignmentSql, Literal.sql, h₁]
  | playList p =>
    have h₁ : lit "name=" = lit "name" ++ [61] := by decide
    have h₂ : lit ",description=" = 44 :: (lit "description" ++ [61]) := by decide
    have h₃ : lit ",order_by=" = 44 :: (lit "order_by" ++ [61]) := by decide
    have h₄ : lit ",present_order=" = 44 :: (lit "present_order" ++ [61]) := by decide
    simp [tableUpdateValues, PlayList.tableUpdateValues, literals, tableDescription,
      PlayList.tableDescription, joinWith, assignmentSql, Literal.sql, h₁, h₂, h₃, h₄]
  | musicDir d =>
    have h₁ : lit "parent_id=" = lit "parent_id" ++ [61] := by decide
    have h₂ : lit ",name=" = 44 :: (lit "name" ++ [61]) := by decide
    simp [tableUpdateValues, MusicDir.tableUpdateValues, literals, tableDescription,
      MusicDir.tableDescription, joinWith, assignmentSql, Literal.sql, h₁, h₂]
  | user u =>
    have h₁ : lit "login=" = lit "login" ++ [61] := by decide
    have h₂ : lit ",password=" = 44 :: (lit "password" ++ [61]) := by decide
    have h₃ : lit ",ticket=" = 44 :: (lit "ticket" ++ [61]) := by decide
    have h₄ : lit ",last_visit=" = 44 :: (lit "last_visit" ++ [61]) := by decide
    have h₅ : lit ",role=" = 44 :: (lit "role" ++ [61]) := by decide
    simp [tableUpdateValues, User.tableUpdateValues, literals, tableDescription,
      User.tableDescription, joinWith, assignmentSql, Literal.sql, h₁, h₂, h₃, h₄, h₅]

/-- The strings of an object are the only literals that can hold a NUL. -/
theorem clean_literals (r : Row) : r.literals.all Literal.clean = r.strings.all nulFree := by
  have htext : ∀ t, Literal.clean (.text t) = nulFree t := fun _ => rfl
  have hint : ∀ n, Literal.clean (.int n) = true := fun _ => rfl
  cases r <;> simp [literals, strings, htext, hint, nulFree_toIsoString]

/-- **An insert of any object.** -/
theorem parse_insert (r : Row) :
    parse (saveText r.tableDescription (r.saved 0)) =
      if r.strings.all nulFree then
        some (.insert r.tableDescription.tableName r.tableDescription.fields r.literals)
      else none := by
  rw [← clean_literals]
  exact Sqlite.parse_insert r.columns.toNamed rfl r.tableInsertValues_eq r.literals_ne

/-- **An update of any object but a `Song`.** -/
theorem parse_update {r : Row} (h : r.isSong = false) {id : Int64} (hid : id ≠ 0) :
    parse (saveText r.tableDescription (r.saved id)) =
      if r.strings.all nulFree then
        some (.update r.tableDescription.tableName (r.tableDescription.fields.zip r.literals)
          (.int id.toInt))
      else none := by
  have hne : r.tableDescription.fields.zip r.literals ≠ [] := by
    intro he
    have := congrArg List.length he
    rw [List.length_zip, ← r.length_literals, Nat.min_self] at this
    exact r.columns.fields_ne (List.eq_nil_of_length_eq_zero this)
  have hclean : ((r.tableDescription.fields.zip r.literals).all fun a => a.2.clean) =
      r.strings.all nulFree := by
    rw [← clean_literals]
    conv_rhs => rw [← List.map_snd_zip r.length_literals.ge, List.all_map]
    rfl
  rw [← hclean]
  refine Sqlite.parse_update r.columns.tableName (fun a ha => ?_) rfl ?_ (tableUpdateValues_eq h) hne
  · exact r.columns.fields _ (List.of_mem_zip ha).1
  · intro h0
    exact hid (Int64.toInt_inj.mp h0)

/-! ## Saving a stored object -/

end Row

/-- The pieces of the update of a `Song` up to its second `=`. -/
def songPieces (s : Song) : List Piece :=
  [.word (lit "update"), .space, .word (lit "songs"), .space, .word (lit "set"), .space,
    .word (lit "dir_id"), .eq, .literal (.int s.dirId.toInt), .word (lit "artist_id"), .eq]

theorem joins_songPieces (s : Song) : Joins (songPieces s) := by
  -- neither `.` nor an exponent follows the number
  have hname : (!((lit "artist_id").head? == some 101 || (lit "artist_id").head? == some 69)) =
      true := by decide
  exact .cons (by decide) rfl <| .cons rfl rfl <| .cons (by decide) rfl <| .cons rfl rfl <|
    .cons (by decide) rfl <| .cons rfl rfl <| .cons (by decide) rfl <| .cons rfl rfl <|
    .cons rfl hname <| .cons (by decide) rfl <| .single rfl

/-- No assignment of a literal goes on with a name. -/
theorem readAssignment_song (n : Int) (ts : List Token) :
    readAssignment (.word (lit "dir_id") :: .eq ::
      ((Literal.int n).toks ++ .word (lit "artist_id") :: ts)) = none := by
  have h : readLiteral ((Literal.int n).toks ++ .word (lit "artist_id") :: ts) = none := by
    simp only [Literal.toks, Piece.toks]
    split <;> rfl
  rw [readAssignment, h]
  split <;> rfl

/-- **An update of a `Song`** is a syntax error. -/
theorem parse_update_song (s : Song) {id : Int64} (hid : id ≠ 0) :
    parse (saveText Song.tableDescription ((Row.song s).saved id)) = none := by
  obtain ⟨rest, htext⟩ : ∃ rest, saveText Song.tableDescription ((Row.song s).saved id) =
      textOf (songPieces s) ++ rest := by
    have h₁ : lit "update " = lit "update" ++ [32] := by decide
    have h₂ : lit " set " = 32 :: (lit "set" ++ [32]) := by decide
    have h₃ : lit "dir_id=" = lit "dir_id" ++ [61] := by decide
    have h₄ : lit "artist_id=" = lit "artist_id" ++ [61] := by decide
    have hid' : ((Row.song s).saved id).dbId ≠ 0 := fun h0 => hid (Int64.toInt_inj.mp h0)
    rw [saveText, if_neg hid', h₁, h₂]
    simp only [Row.saved, Row.tableUpdateValues, Song.tableUpdateValues, h₃, h₄, songPieces,
      textOf_cons, textOf_nil, Piece.text, Literal.sql, Song.tableDescription, List.append_assoc,
      List.cons_append, List.nil_append, List.append_nil]
    exact ⟨_, rfl⟩
  have htoks : (songPieces s).flatMap Piece.toks =
      [.word (lit "update"), .word (lit "songs"), .word (lit "set"), .word (lit "dir_id"), .eq] ++
        (Literal.int s.dirId.toInt).toks ++ [.word (lit "artist_id"), .eq] := by
    simp [songPieces, Piece.toks, Literal.toks]
  rw [htext, parse, tokens_pieces_append (joins_songPieces s) rfl rfl]
  cases tokens (seen rest) with
  | none => rfl
  | some ts =>
    have hlit : ∀ t ∈ (Literal.int s.dirId.toInt).toks, (!isKeyword (lit "WHERE") t) = true := by
      intro t ht
      rw [((Literal.int _).toks_plain ht).2.2]
      rfl
    have hcomma : .comma ∉ .word (lit "dir_id") :: .eq ::
        ((Literal.int s.dirId.toInt).toks ++ [.word (lit "artist_id")]) := by
      simp only [List.mem_cons, List.mem_append, reduceCtorEq, false_or, List.not_mem_nil, or_false]
      exact fun h => ((Literal.int _).toks_plain h).1 rfl
    have hlist : readList readAssignment
        ((.word (lit "dir_id") :: .eq :: ((Literal.int s.dirId.toInt).toks ++
          .word (lit "artist_id") :: .eq :: ts)).takeWhile fun t => !isKeyword (lit "WHERE") t) =
        none := by
      rw [List.takeWhile_cons_of_pos (by decide), List.takeWhile_cons_of_pos (by decide),
        List.takeWhile_append_of_pos hlit, List.takeWhile_cons_of_pos (by decide)]
      have := readList_eq_none hcomma (fun ts' => by simpa using readAssignment_song _ ts')
        ((Token.eq :: ts).takeWhile fun t => !isKeyword (lit "WHERE") t)
      simpa using this
    rw [Option.map_some, Option.bind_some, htoks]
    simp only [List.append_assoc, List.cons_append, List.nil_append]
    rw [readStatement, if_pos (by decide), readUpdate, if_pos (by decide), hlist]
    rfl

namespace Row

section

variable [Affinity]

/-- `save` of the object with `db_id()` `id`: an `update` of that row that assigns to every field
of the description, once, the literal that the `insert` of the object has for it. -/
def Updates (r : Row) (id : Int64) : Prop :=
  ∃ vs : List Literal,
    SavesAs r.tableDescription (r.saved 0)
        (.insert r.tableDescription.tableName r.tableDescription.fields vs) ∧
      SavesAs r.tableDescription (r.saved id)
        (.update r.tableDescription.tableName (r.tableDescription.fields.zip vs) (.int id.toInt)) ∧
      r.tableDescription.fields.length = vs.length ∧ r.tableDescription.fields.Nodup ∧
      TouchesOnly (saveText r.tableDescription (r.saved id)) r.tableDescription.tableName id.toInt

/-- **Saving a stored object**: it is an update of all its fields exactly if the object is no
`Song` and none of its strings holds a NUL. -/
theorem updates_iff (r : Row) {id : Int64} (hid : id ≠ 0) :
    r.Updates id ↔ r.isSong = false ∧ r.strings.all nulFree = true := by
  constructor
  · rintro ⟨vs, hinsert, hupdate, -⟩
    rw [savesAs_iff] at hinsert hupdate
    constructor
    · cases r with
      | song s => exact absurd ((parse_update_song s hid).symm.trans hupdate) (by simp)
      | _ => rfl
    · by_contra hnul
      rw [parse_insert, if_neg hnul] at hinsert
      cases hinsert
  · rintro ⟨hsong, hnul⟩
    have hupdate := parse_update hsong hid
    rw [if_pos hnul] at hupdate
    refine ⟨r.literals, savesAs_iff.mpr ?_, savesAs_iff.mpr hupdate, r.length_literals,
      r.columns.nodup, touchesOnly_update hupdate⟩
    rw [parse_insert, if_pos hnul]

end

/-- A playlist with a quote in its name. -/
def quotedList : Row := .playList ⟨lit "It's", [], lit "present_order desc", 0⟩

/-- A song as the library holds it. -/
def someSong : Row := .song ⟨1, 1, 1, lit "a.mp3", lit "A", 1, 60, 128, 2000⟩

theorem quotedList_updates : @Row.Updates integerAffinity quotedList 1 :=
  (@updates_iff integerAffinity quotedList 1 (by decide)).mpr ⟨rfl, by decide⟩

/-- A stored song cannot be saved again. -/
theorem song_not_updates : ¬ ∀ (r : Row) (id : Int64), id ≠ 0 → @Row.Updates integerAffinity r id := by
  intro h
  obtain ⟨vs, -, hupdate, -⟩ := h someSong 1 (by decide)
  rw [@savesAs_iff integerAffinity] at hupdate
  have hnone := @parse_update_song ⟨1, 1, 1, lit "a.mp3", lit "A", 1, 60, 128, 2000⟩ 1
    (by decide)
  exact absurd (hnone.symm.trans hupdate) (by simp)

/-! ## Loading a new object -/

section

variable [Affinity]

/-- An object saved as a new row, on an open connection to a store with the table of its class, is
loaded by its rowid as it was. -/
def LoadsBack (r : Row) : Prop :=
  ∀ (c : Connection Store) (s : Store) (rel : Relation), c.db = some s → c.buffer = [] →
    s.Holds r.tableDescription r.fieldTypes rel →
    ∃ row, outcome (saveAndLoad r.tableDescription (r.saved 0)) c = .ok row ∧
      r.initializeFromDb row = some r

/-- The columns keep the strings of the object, the parent of a `MusicDir` fits an `int`, and the
last visit of a `User` is a time. -/
def Survives (r : Row) : Prop :=
  (∀ t ∈ r.strings, coerce t = t) ∧
    match r with
    | musicDir d => -2147483648 ≤ d.parentId.toInt ∧ d.parentId.toInt < 2147483648
    | user u => u.lastVisit.isMoment = true
    | _ => True

omit [Affinity] in
/-- An `id_t` read as an `int` is the same if it fits one. -/
theorem toInt32_toInt64_iff (p : Int64) :
    p.toInt32.toInt64 = p ↔ -2147483648 ≤ p.toInt ∧ p.toInt < 2147483648 := by
  rw [← Int64.toInt_inj, Int32.toInt_toInt64, Int64.toInt_toInt32]
  constructor
  · intro h
    have h₁ := Int.le_bmod (x := p.toInt) (m := 2 ^ 32) (by decide)
    have h₂ := Int.bmod_lt (x := p.toInt) (m := 2 ^ 32) (by decide)
    omega
  · rintro ⟨h₁, h₂⟩
    exact Int.bmod_eq_of_le (by omega) (by omega)

omit [Affinity] in
/-- The text of a time is no number. -/
theorem isNumber_toIsoString (t : PTime) : isNumber t.toIsoString = false := by
  cases t with
  | moment m =>
    have hdate : ∀ b ∈ setw 4 m.year ++ setw 2 m.month ++ setw 2 m.day, isDigit b = true := by
      intro b hb
      rw [List.mem_append, List.mem_append] at hb
      rcases hb with (hb | hb) | hb <;> exact isDigit_of_mem_setw hb
    have hne : setw 4 m.year ++ setw 2 m.month ++ setw 2 m.day ≠ [] :=
      List.ne_nil_of_length_pos (by simp)
    have hT : lit "T" = [84] := by decide
    have key := isNumber_digits_alpha hdate hne (b := 84) (by decide) (by decide)
    simp only [List.append_assoc] at key
    simp only [PTime.toIsoString, hT, List.append_assoc, List.cons_append,
      key]
  | _ => decide

/-- What `initialize_from_db` makes of the row of a new object. -/
theorem initializeFromDb_loadedRow (r : Row) (id : Int) :
    r.initializeFromDb (loadedRow r.fieldTypes r.literals id) = some r ↔ r.Survives := by
  have hs : affinityType (lit "string") = .numeric := by decide
  have hi : affinityType (lit "integer") = .numeric := by decide
  have hi' : affinityType (lit "int") = .numeric := by decide
  cases r with
  | song s =>
    obtain ⟨dir, artist, album, file, title, track, length, bitrate, year⟩ := s
    simp [initializeFromDb, Song.initializeFromDb, loadedRow, fieldTypes, Song.fieldTypes, literals,
      hs, hi, stored, getId, getInt, getString, coerce, Value.toInt, Survives, strings]
  | artist a =>
    obtain ⟨name⟩ := a
    simp [initializeFromDb, Artist.initializeFromDb, loadedRow, fieldTypes, Artist.fieldTypes,
      literals, hs, stored, getString, coerce, Survives, strings]
  | album a =>
    obtain ⟨name⟩ := a
    simp [initializeFromDb, Album.initializeFromDb, loadedRow, fieldTypes, Album.fieldTypes,
      literals, hs, stored, getString, coerce, Survives, strings]
  | playList p =>
    obtain ⟨name, description, orderBy, presentOrder⟩ := p
    simp [initializeFromDb, PlayList.initializeFromDb, loadedRow, fieldTypes, PlayList.fieldTypes,
      literals, hs, hi', stored, getInt, getString, coerce, Value.toInt, Survives, strings]
  | musicDir d =>
    obtain ⟨parent, name⟩ := d
    simp [initializeFromDb, MusicDir.initializeFromDb, loadedRow, fieldTypes, MusicDir.fieldTypes,
      literals, hs, hi', stored, getInt, getString, coerce, Value.toInt, Survives, strings,
      toInt32_toInt64_iff, and_comm]
  | user u =>
    obtain ⟨login, password, ticket, lastVisit, role⟩ := u
    have hvisit : (store lastVisit.toIsoString).print = lastVisit.toIsoString :=
      coerce_of_not_number (isNumber_toIsoString lastVisit)
    rw [Survives, ← fromIsoString_iff]
    cases hread : fromIsoString lastVisit.toIsoString <;>
      simp [initializeFromDb, User.initializeFromDb, loadedRow, fieldTypes, User.fieldTypes,
        literals, hs, hi', stored, getInt, getString, coerce, Value.toInt, strings, hvisit,
        hread, and_assoc]

/-- The row that `load` reads of the object that `save` has inserted. -/
theorem outcome_saveAndLoad {r : Row} (hnul : r.strings.all nulFree = true)
    {c : Connection Store} {s : Store} {rel : Relation} (hdb : c.db = some s) (hbuf : c.buffer = [])
    (hs : s.Holds r.tableDescription r.fieldTypes rel) :
    outcome (saveAndLoad r.tableDescription (r.saved 0)) c =
      .ok (loadedRow r.fieldTypes r.literals rel.rows.nextId) := by
  rw [← clean_literals] at hnul
  exact saveAndLoad_new r.columns rfl r.tableInsertValues_eq r.length_literals hnul hdb hbuf hs

theorem survives_of_loadsBack {r : Row} (hnul : r.strings.all nulFree = true) (h : r.LoadsBack) :
    r.Survives := by
  obtain ⟨s, -, hs⟩ := exec_create r.columns r.fieldTypes_isField (s := ⟨fun _ => none, 0⟩) rfl
  obtain ⟨row, hrow, hread⟩ := h ⟨[], some s, []⟩ s _ rfl rfl hs
  rw [outcome_saveAndLoad hnul rfl rfl hs] at hrow
  cases hrow
  exact (initializeFromDb_loadedRow r _).mp hread

/-- **A new object comes back as it was** exactly if it survives its columns. -/
theorem loadsBack_iff (r : Row) (hnul : r.strings.all nulFree = true) :
    r.LoadsBack ↔ r.Survives := by
  refine ⟨survives_of_loadsBack hnul, fun h c s rel hdb hbuf hs => ?_⟩
  exact ⟨_, outcome_saveAndLoad hnul hdb hbuf hs, (initializeFromDb_loadedRow r _).mpr h⟩

end

/-- An artist with a number for a name. -/
def agent : Row := .artist ⟨lit "007"⟩

theorem quotedList_loadsBack : @LoadsBack integerAffinity quotedList :=
  (@loadsBack_iff integerAffinity quotedList (by decide)).mpr
    ⟨by decide, trivial⟩

/-- The name `007` comes back as `7`. -/
theorem agent_not_loadsBack : ¬ ∀ r : Row, r.strings.all nulFree = true →
    @LoadsBack integerAffinity r := by
  intro h
  obtain ⟨hs, -⟩ :=
    @survives_of_loadsBack integerAffinity agent (by decide) (h agent (by decide))
  exact absurd (hs (lit "007") (by decide)) (by decide)

end Row

end Spinny.Rows

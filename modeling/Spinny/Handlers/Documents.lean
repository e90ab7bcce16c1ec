import Spinny.Handlers.Drops
import Spinny.Handlers.Expansion
import Spinny.Lib.Js.Documents

/-!
# The answers that the page reads as JavaScript

`PL`, `Tree` and `Info` write objects and arrays by hand. Their strings stand between quotes of one
kind, and of all bytes that end or change a string at most one is escaped: `json_q` escapes `'`,
`Tree` escapes `"`, and the first letters of artists are written as they are.

* `Doc`: a text of pieces and the value that it is meant for.
* `Written`: which text each request is answered with; `asked_written`: the handlers write it.
* `documents_iff`: when the text denotes the value.
-/

namespace Handlers

open Bytes Boost Spinny Sqlite Ews Proc

/-! ## Texts and what they are meant for -/

/-- Nothing in the string ends it or changes its meaning but quotes, which are escaped. -/
def Calm (s : Bytes) : Prop := ∀ b ∈ s, b ≠ 92 ∧ b ≠ 10 ∧ b ≠ 13

/-- An answer: its pieces, the value that it is meant for, and whether the strings in it are such
that their quotes and escapes bring them across. -/
structure Doc where
  quote : UInt8
  pieces : List Js.Piece
  value : Js.Value
  readable : Prop

namespace Doc

/-- The text of the answer. -/
def text (d : Doc) : Bytes := d.pieces.flatMap (Js.Piece.text d.quote)

/-- The pieces stand for the value, and are read back if the strings are such. -/
structure Sound (d : Doc) : Prop where
  fits : ∀ p ∈ d.pieces, p.fits d.quote = true
  tokens : d.pieces.flatMap Js.Piece.tokens = d.value.tokens
  reads : (∀ p ∈ d.pieces, p.reads d.quote = true) ↔ d.readable

theorem Sound.denotes_iff {d : Doc} (h : d.Sound) : Js.Denotes d.text d.value ↔ d.readable :=
  (Js.document_iff h.fits h.tokens).trans h.reads

end Doc

/-- An object in a list of such, with the same for its strings. -/
structure Item where
  pieces : List Js.Piece
  value : Js.Value
  readable : Prop

/-- The pieces stand for the object, and are read back if the strings are such. -/
structure Item.Sound (q : UInt8) (i : Item) : Prop where
  fits : ∀ p ∈ i.pieces, p.fits q = true
  tokens : i.pieces.flatMap Js.Piece.tokens = i.value.tokens
  reads : (∀ p ∈ i.pieces, p.reads q = true) ↔ i.readable

/-- The pieces of items, with what `comma` writes before each of them. -/
def itemPieces (used : Bool) : List Item → List Js.Piece
  | [] => []
  | i :: items => .fixed (comma used) :: (i.pieces ++ itemPieces true items)

theorem itemPieces_fits {q : UInt8} {items : List Item} (h : ∀ i ∈ items, i.Sound q)
    (used : Bool) : ∀ p ∈ itemPieces used items, p.fits q = true := by
  induction items generalizing used with
  | nil => simp [itemPieces]
  | cons i items ih =>
    have hcomma : (Js.Piece.fixed (comma used)).fits q = true := by
      cases used <;> rfl
    intro p hp
    rcases List.mem_cons.mp hp with rfl | hp
    · exact hcomma
    · rcases List.mem_append.mp hp with hp | hp
      · exact (h i (by simp)).fits p hp
      · exact ih (fun j hj => h j (by simp [hj])) true p hp

/-- The tokens of items are those of the elements of an array. -/
theorem itemPieces_tokens {q : UInt8} {items : List Item} (h : ∀ i ∈ items, i.Sound q) :
    (itemPieces false items).flatMap Js.Piece.tokens =
      Js.elementTokens (items.map Item.value) := by
  have hblank : Js.fixedTokens (comma false) = [] := by decide
  have hcomma : Js.fixedTokens (comma true) = [.mark 44] := by decide
  have key : ∀ items : List Item, items ≠ [] → (∀ i ∈ items, i.Sound q) → ∀ used,
      (itemPieces used items).flatMap Js.Piece.tokens =
        Js.fixedTokens (comma used) ++ Js.elementTokens (items.map Item.value) := by
    intro items
    induction items with
    | nil => exact fun hne => absurd rfl hne
    | cons i items ih =>
      intro _ hall used
      have hi := (hall i (by simp)).tokens
      have hrest : ∀ j ∈ items, j.Sound q := fun j hj => hall j (by simp [hj])
      rw [itemPieces, List.flatMap_cons, List.flatMap_append, hi, Js.Piece.tokens]
      cases items with
      | nil => simp [itemPieces, Js.elementTokens]
      | cons j items =>
        rw [ih (by simp) hrest true, hcomma]
        simp [Js.elementTokens]
  cases items with
  | nil => simp [itemPieces, Js.elementTokens]
  | cons i items => rw [key _ (by simp) h false, hblank, List.nil_append]

theorem itemPieces_reads {q : UInt8} {items : List Item} (h : ∀ i ∈ items, i.Sound q)
    (used : Bool) : (∀ p ∈ itemPieces used items, p.reads q = true) ↔
      ∀ i ∈ items, i.readable := by
  induction items generalizing used with
  | nil => simp [itemPieces]
  | cons i items ih =>
    rw [itemPieces, List.forall_mem_cons, List.forall_mem_append, (h i (by simp)).reads,
      ih (fun j hj => h j (by simp [hj])) true, List.forall_mem_cons]
    exact and_iff_right rfl

/-- The text of items. -/
theorem itemPieces_text {α : Type} (q : UInt8) (item : α → Item) (used : Bool) (rows : List α) :
    (itemPieces used (rows.map item)).flatMap (Js.Piece.text q) =
      eachText (fun before a => before ++ (item a).pieces.flatMap (Js.Piece.text q)) used rows := by
  induction rows generalizing used with
  | nil => rfl
  | cons a rows ih =>
    simp only [List.map_cons, itemPieces, List.flatMap_cons, List.flatMap_append, ih, eachText,
      Js.Piece.text, List.append_assoc]

theorem replaceAll_eq (c : UInt8) (s : Bytes) :
    replaceAll c [92, c] s = Js.escaped (some c) s := by
  simp only [replaceAll, Js.escaped, Option.some.injEq]
  refine congrArg (List.flatMap · s) (funext fun b => ?_)
  split_ifs with h
  · rw [h]
  · rfl

theorem jsonQ_eq (s : Bytes) : jsonQ s = Js.escaped (some 39) s := replaceAll_eq 39 s

theorem escapeQuotes_eq (s : Bytes) : escapeQuotes s = Js.escaped (some 34) s := replaceAll_eq 34 s

theorem escaped_none (s : Bytes) : Js.escaped none s = s := by
  simp [Js.escaped]

/-! ## The objects of the answers -/

/-- A playlist in the answer to `/pl/list`. -/
def playListItem (p : PlayListFields) : Item where
  pieces := [.fixed (lit "\n    \x7b\"id\":"), .number p.dbId (lit ",\"name\":"),
    .string (some 39) p.name, .fixed (lit ",\"description\":"), .string (some 39) p.description,
    .fixed (lit "\x7d")]
  value := .object [(.string (lit "id"), .number p.dbId), (.string (lit "name"), .string p.name),
    (.string (lit "description"), .string p.description)]
  readable := Js.survives 34 (some 39) p.name = true ∧
    Js.survives 34 (some 39) p.description = true

/-- A node without a letter in an answer of `Tree`. -/
def nodeItem (n : Tree.Node) : Item where
  pieces := [.fixed (lit "\n    \x7b\"id\":"), .number n.id (lit ",\"text\":"),
    .string (some 34) n.label,
    .fixed (lit ",\"leaf\":" ++ (if n.numChildren ≠ 0 then lit "false" else lit "true") ++
      lit ",\"cls\":"), .string none n.type, .fixed (lit " \x7d")]
  value := .object [(.string (lit "id"), .number n.id), (.string (lit "text"), .string n.label),
    (.string (lit "leaf"), .boolean (n.numChildren == 0)), (.string (lit "cls"), .string n.type)]
  readable := Calm n.label

/-- A node with a letter; in its text `x` is escaped. -/
def letteredItem (x : Option UInt8) (id text type : Bytes) (readable : Prop) : Item where
  pieces := [.fixed (lit "\n    \x7b\"id\":"), .string none id, .fixed (lit ",\"text\":"),
    .string x text, .fixed (lit ",\"leaf\":false,\"cls\":"), .string none type,
    .fixed (lit " \x7d")]
  value := .object [(.string (lit "id"), .string id), (.string (lit "text"), .string text),
    (.string (lit "leaf"), .boolean false), (.string (lit "cls"), .string type)]
  readable := readable

/-- A starting character of artists. -/
def startItem (c : UInt8 × Nat) : Item :=
  letteredItem none (lit "a" ++ [c.1]) [c.1] (lit "artist") (c.1 ≠ 34 ∧ Calm [c.1])

/-- An artist in an answer of `Tree`. -/
def artistItem (a : Artist) : Item :=
  letteredItem (some 34) (lit "b" ++ showInt a.dbId) a.name (lit "artist") (Calm a.name)

/-- An album in an answer of `Tree`. -/
def albumItem (a : Album) : Item :=
  letteredItem (some 34) (lit "c" ++ showInt a.dbId) a.name (lit "album") (Calm a.name)

/-- A song in the answer to `/info/find`. -/
def foundItem (s : Spinny.Song) : Item where
  pieces := [.fixed (lit "\x7b 'id':"), .number s.dbId (lit ",'title':"),
    .string (some 39) s.title, .fixed (lit "\x7d\n")]
  value := .object [(.string (lit "id"), .number s.dbId), (.string (lit "title"), .string s.title)]
  readable := Calm s.title

/-- A song of a playlist with the names of its artist and its album. -/
structure NamedSong where
  song : Spinny.Song
  artist : Bytes
  album : Bytes

/-- A song in the answer to `/pl/songs/list`. -/
def songItem (s : NamedSong) : Item where
  pieces := [.fixed (lit "\x7b 'id':"), .number s.song.dbId (lit ",'tr':"),
    .number s.song.track (lit ",'tt':"), .string (some 39) s.song.title, .fixed (lit ", 'at':"),
    .string (some 39) s.artist, .fixed (lit ", 'al':"), .string (some 39) s.album,
    .fixed (lit ",'ln':"), .number s.song.length (lit "\x7d\n")]
  value := .object [(.string (lit "id"), .number s.song.dbId),
    (.string (lit "tr"), .number s.song.track), (.string (lit "tt"), .string s.song.title),
    (.string (lit "at"), .string s.artist), (.string (lit "al"), .string s.album),
    (.string (lit "ln"), .number s.song.length)]
  readable := Calm s.song.title ∧ Calm s.artist ∧ Calm s.album

theorem forall_fits {q : UInt8} {ps : List Js.Piece}
    (h : ps.all (Js.Piece.fits q) = true) : ∀ p ∈ ps, p.fits q = true := List.all_eq_true.mp h

theorem playListItem_sound (p : PlayListFields) : (playListItem p).Sound 34 where
  fits := forall_fits rfl
  tokens := by
    simp only [playListItem, List.flatMap_cons, List.flatMap_nil, Js.Piece.tokens, Js.Value.tokens,
      Js.memberTokens, Js.Key.token]
    have h1 : Js.fixedTokens (lit "\n    \x7b\"id\":") =
      [.mark 123, .string (lit "id"), .mark 58] := by decide
    have h2 : Js.fixedTokens (lit ",\"name\":") = [.mark 44, .string (lit "name"), .mark 58] := by
      decide
    have h3 : Js.fixedTokens (lit ",\"description\":") =
      [.mark 44, .string (lit "description"), .mark 58] := by decide
    have h4 : Js.fixedTokens (lit "\x7d") = [.mark 125] := by decide
    simp [h1, h2, h3, h4]
  reads := by simp [playListItem, Js.Piece.reads]

theorem nodeItem_sound {n : Tree.Node} (h : n.type = lit "dir" ∨ n.type = lit "song") :
    (nodeItem n).Sound 34 where
  fits := by
    refine forall_fits ?_
    by_cases hn : n.numChildren = 0
    · simp only [nodeItem, hn, ne_eq, not_true_eq_false, if_false]
      rfl
    · simp only [nodeItem, hn, ne_eq, not_false_eq_true, if_true]
      rfl
  tokens := by
    have h1 : Js.fixedTokens (lit "\n    \x7b\"id\":") =
      [.mark 123, .string (lit "id"), .mark 58] := by decide
    have h2 : Js.fixedTokens (lit ",\"text\":") = [.mark 44, .string (lit "text"), .mark 58] := by
      decide
    have h3 : Js.fixedTokens (lit ",\"leaf\":" ++ lit "false" ++ lit ",\"cls\":") =
      [.mark 44, .string (lit "leaf"), .mark 58, .word (lit "false"), .mark 44,
        .string (lit "cls"), .mark 58] := by decide
    have h4 : Js.fixedTokens (lit ",\"leaf\":" ++ lit "true" ++ lit ",\"cls\":") =
      [.mark 44, .string (lit "leaf"), .mark 58, .word (lit "true"), .mark 44,
        .string (lit "cls"), .mark 58] := by decide
    have h5 : Js.fixedTokens (lit " \x7d") = [.mark 125] := by decide
    simp only [nodeItem, List.flatMap_cons, List.flatMap_nil, Js.Piece.tokens, Js.Value.tokens,
      Js.memberTokens, Js.Key.token]
    by_cases hn : n.numChildren = 0
    · simp only [hn, ne_eq, not_true_eq_false, if_false, h1, h2, h4, h5]
      simp
    · simp only [hn, ne_eq, not_false_eq_true, if_true, h1, h2, h3, h5]
      simp [hn]
  reads := by
    have htype : Js.survives 34 none n.type = true := by
      rcases h with h | h <;> rw [h] <;> decide
    simp [nodeItem, Js.Piece.reads, Js.survives_quoted, Calm, htype]

theorem letteredItem_sound {x : Option UInt8} (hx : x.all (fun b => b == 39 || b == 34) = true)
    {id text type : Bytes} {readable : Prop}
    (hreads : Js.survives 34 none id = true ∧ Js.survives 34 x text = true ∧
      Js.survives 34 none type = true ↔ readable) :
    (letteredItem x id text type readable).Sound 34 where
  fits := by
    have hstring : (Js.Piece.string x text).fits 34 = true := hx
    refine forall_fits ?_
    simp only [letteredItem, List.all_cons, hstring]
    rfl
  tokens := by
    have h1 : Js.fixedTokens (lit "\n    \x7b\"id\":") =
      [.mark 123, .string (lit "id"), .mark 58] := by decide
    have h2 : Js.fixedTokens (lit ",\"text\":") = [.mark 44, .string (lit "text"), .mark 58] := by
      decide
    have h3 : Js.fixedTokens (lit ",\"leaf\":false,\"cls\":") =
      [.mark 44, .string (lit "leaf"), .mark 58, .word (lit "false"), .mark 44,
        .string (lit "cls"), .mark 58] := by decide
    have h4 : Js.fixedTokens (lit " \x7d") = [.mark 125] := by decide
    simp only [letteredItem, List.flatMap_cons, List.flatMap_nil, Js.Piece.tokens, Js.Value.tokens,
      Js.memberTokens, Js.Key.token, h1, h2, h3, h4]
    simp
  reads := by
    rw [letteredItem, ← hreads]
    simp [Js.Piece.reads]

theorem startItem_sound (c : UInt8 × Nat) : (startItem c).Sound 34 := by
  refine letteredItem_sound rfl ?_
  simp only [Js.survives_plain, Calm]
  simp [lit]

/-- The id of a node is read back. -/
theorem survives_id {c : UInt8} (hc : c ≠ 34 ∧ c ≠ 92 ∧ c ≠ 10 ∧ c ≠ 13) (n : Int) :
    Js.survives 34 none (c :: showInt n) = true := by
  have hdigit : ∀ k, ∀ b ∈ decimal k, b ≠ 34 ∧ b ≠ 92 ∧ b ≠ 10 ∧ b ≠ 13 := by
    intro k b hb
    have hd := isDigit_of_mem_decimal hb
    refine ⟨?_, ?_, ?_, ?_⟩ <;> rintro rfl <;> revert hd <;> decide
  rw [Js.survives_plain, List.forall_mem_cons]
  refine ⟨hc, fun b hb => ?_⟩
  unfold showInt at hb
  split at hb
  · rcases List.mem_cons.mp hb with rfl | hb
    · decide
    · exact hdigit _ b hb
  · exact hdigit _ b hb

theorem artistItem_sound (a : Artist) : (artistItem a).Sound 34 := by
  refine letteredItem_sound rfl ?_
  have hid := survives_id (c := 98) (by decide) a.dbId
  have htype : Js.survives 34 none (lit "artist") = true := by decide
  rw [show lit "b" ++ showInt a.dbId = 98 :: showInt a.dbId from rfl, hid, htype,
    Js.survives_quoted]
  simp [Calm]

theorem albumItem_sound (a : Album) : (albumItem a).Sound 34 := by
  refine letteredItem_sound rfl ?_
  have hid := survives_id (c := 99) (by decide) a.dbId
  have htype : Js.survives 34 none (lit "album") = true := by decide
  rw [show lit "c" ++ showInt a.dbId = 99 :: showInt a.dbId from rfl, hid, htype,
    Js.survives_quoted]
  simp [Calm]

theorem foundItem_sound (s : Spinny.Song) : (foundItem s).Sound 39 where
  fits := forall_fits rfl
  tokens := by
    have h1 : Js.fixedTokens (lit "\x7b 'id':") =
      [.mark 123, .string (lit "id"), .mark 58] := by decide
    have h2 : Js.fixedTokens (lit ",'title':") =
      [.mark 44, .string (lit "title"), .mark 58] := by decide
    have h3 : Js.fixedTokens (lit "\x7d\n") = [.mark 125] := by decide
    simp only [foundItem, List.flatMap_cons, List.flatMap_nil, Js.Piece.tokens, Js.Value.tokens,
      Js.memberTokens, Js.Key.token, h1, h2, h3]
    simp
  reads := by simp [foundItem, Js.Piece.reads, Js.survives_quoted, Calm]

theorem songItem_sound (s : NamedSong) : (songItem s).Sound 39 where
  fits := forall_fits rfl
  tokens := by
    have h1 : Js.fixedTokens (lit "\x7b 'id':") =
      [.mark 123, .string (lit "id"), .mark 58] := by decide
    have h2 : Js.fixedTokens (lit ",'tr':") = [.mark 44, .string (lit "tr"), .mark 58] := by decide
    have h3 : Js.fixedTokens (lit ",'tt':") = [.mark 44, .string (lit "tt"), .mark 58] := by decide
    have h4 : Js.fixedTokens (lit ", 'at':") = [.mark 44, .string (lit "at"), .mark 58] := by decide
    have h5 : Js.fixedTokens (lit ", 'al':") = [.mark 44, .string (lit "al"), .mark 58] := by decide
    have h6 : Js.fixedTokens (lit ",'ln':") = [.mark 44, .string (lit "ln"), .mark 58] := by decide
    have h7 : Js.fixedTokens (lit "\x7d\n") = [.mark 125] := by decide
    simp only [songItem, List.flatMap_cons, List.flatMap_nil, Js.Piece.tokens, Js.Value.tokens,
      Js.memberTokens, Js.Key.token, h1, h2, h3, h4, h5, h6, h7]
    simp
  reads := by simp [songItem, Js.Piece.reads, Js.survives_quoted, Calm]

/-! ## The answers -/

/-- The answer to `/pl/list`. -/
def playListsDoc (l : List PlayListFields) : Doc where
  quote := 34
  pieces := .fixed (lit "\x7bPlaylists: [") :: (itemPieces false (l.map playListItem) ++
    [.fixed (lit "]\x7d")])
  value := .object [(.word (lit "Playlists"), .array (l.map fun p => (playListItem p).value))]
  readable := ∀ p ∈ l, (playListItem p).readable

/-- An answer of `Tree`. -/
def treeDoc (items : List Item) : Doc where
  quote := 34
  pieces := .fixed (lit "[") :: (itemPieces false items ++ [.fixed (lit "\n]")])
  value := .array (items.map Item.value)
  readable := ∀ i ∈ items, i.readable

/-- The answer to `/info/find`. -/
def foundDoc (n : Nat) (l : List Spinny.Song) : Doc where
  quote := 39
  pieces := .fixed (lit "\x7b TotalCount:") :: .number n (lit ",\nSongs: [ \n") ::
    (itemPieces false (l.map foundItem) ++ [.fixed (lit "]\x7d\n")])
  value := .object [(.word (lit "TotalCount"), .number n),
    (.word (lit "Songs"), .array (l.map fun s => (foundItem s).value))]
  readable := ∀ s ∈ l, (foundItem s).readable

/-- The answer to `/pl/songs/list`. -/
def songsDoc (n : Nat) (l : List NamedSong) : Doc where
  quote := 39
  pieces := .fixed (lit "\x7b Songs:  [ \n") :: (itemPieces false (l.map songItem) ++
    [.fixed (lit "], Size: "), .number n (lit " \x7d\n")])
  value := .object [(.word (lit "Songs"), .array (l.map fun s => (songItem s).value)),
    (.word (lit "Size"), .number n)]
  readable := ∀ s ∈ l, (songItem s).readable

theorem items_sound {α : Type} {q : UInt8} {item : α → Item} (h : ∀ a, (item a).Sound q)
    (l : List α) : ∀ i ∈ l.map item, i.Sound q := by
  intro i hi
  obtain ⟨a, -, rfl⟩ := List.mem_map.mp hi
  exact h a

theorem playListsDoc_sound (l : List PlayListFields) : (playListsDoc l).Sound where
  fits := by
    have hitems := itemPieces_fits (items_sound playListItem_sound l) false
    simp only [playListsDoc, List.forall_mem_cons, List.forall_mem_append]
    exact ⟨rfl, hitems, rfl, by simp⟩
  tokens := by
    have h1 : Js.fixedTokens (lit "\x7bPlaylists: [") =
      [.mark 123, .word (lit "Playlists"), .mark 58, .mark 91] := by decide
    have h2 : Js.fixedTokens (lit "]\x7d") = [.mark 93, .mark 125] := by decide
    have hitems := itemPieces_tokens (items_sound playListItem_sound l)
    rw [List.map_map] at hitems
    simp only [playListsDoc, List.flatMap_cons, List.flatMap_append, List.flatMap_nil, hitems,
      Js.Piece.tokens, h1, h2, Js.Value.tokens, Js.memberTokens, Js.Key.token]
    simp [Function.comp_def]
  reads := by
    have hitems := itemPieces_reads (items_sound playListItem_sound l) false
    simp only [playListsDoc, List.forall_mem_cons, List.forall_mem_append, hitems]
    simp [Js.Piece.reads]

theorem treeDoc_sound {items : List Item} (h : ∀ i ∈ items, i.Sound 34) :
    (treeDoc items).Sound where
  fits := by
    have hitems := itemPieces_fits h false
    simp only [treeDoc, List.forall_mem_cons, List.forall_mem_append]
    exact ⟨rfl, hitems, rfl, by simp⟩
  tokens := by
    have h1 : Js.fixedTokens (lit "[") = [.mark 91] := by decide
    have h2 : Js.fixedTokens (lit "\n]") = [.mark 93] := by decide
    simp only [treeDoc, List.flatMap_cons, List.flatMap_append, List.flatMap_nil,
      itemPieces_tokens h, Js.Piece.tokens, h1, h2, Js.Value.tokens]
    simp
  reads := by
    simp only [treeDoc, List.forall_mem_cons, List.forall_mem_append, itemPieces_reads h]
    simp [Js.Piece.reads]

theorem foundDoc_sound (n : Nat) (l : List Spinny.Song) : (foundDoc n l).Sound where
  fits := by
    have hitems := itemPieces_fits (items_sound foundItem_sound l) false
    simp only [foundDoc, List.forall_mem_cons, List.forall_mem_append]
    exact ⟨rfl, rfl, hitems, rfl, by simp⟩
  tokens := by
    have h1 : Js.fixedTokens (lit "\x7b TotalCount:") =
      [.mark 123, .word (lit "TotalCount"), .mark 58] := by decide
    have h2 : Js.fixedTokens (lit ",\nSongs: [ \n") =
      [.mark 44, .word (lit "Songs"), .mark 58, .mark 91] := by decide
    have h3 : Js.fixedTokens (lit "]\x7d\n") = [.mark 93, .mark 125] := by decide
    have hitems := itemPieces_tokens (items_sound foundItem_sound l)
    rw [List.map_map] at hitems
    simp only [foundDoc, List.flatMap_cons, List.flatMap_append, List.flatMap_nil, hitems,
      Js.Piece.tokens, h1, h2, h3, Js.Value.tokens, Js.memberTokens, Js.Key.token]
    simp [Function.comp_def]
  reads := by
    have hitems := itemPieces_reads (items_sound foundItem_sound l) false
    simp only [foundDoc, List.forall_mem_cons, List.forall_mem_append, hitems]
    simp [Js.Piece.reads]

theorem songsDoc_sound (n : Nat) (l : List NamedSong) : (songsDoc n l).Sound where
  fits := by
    have hitems := itemPieces_fits (items_sound songItem_sound l) false
    simp only [songsDoc, List.forall_mem_cons, List.forall_mem_append]
    exact ⟨rfl, hitems, rfl, rfl, by simp⟩
  tokens := by
    have h1 : Js.fixedTokens (lit "\x7b Songs:  [ \n") =
      [.mark 123, .word (lit "Songs"), .mark 58, .mark 91] := by decide
    have h2 : Js.fixedTokens (lit "], Size: ") =
      [.mark 93, .mark 44, .word (lit "Size"), .mark 58] := by decide
    have h3 : Js.fixedTokens (lit " \x7d\n") = [.mark 125] := by decide
    have hitems := itemPieces_tokens (items_sound songItem_sound l)
    rw [List.map_map] at hitems
    simp only [songsDoc, List.flatMap_cons, List.flatMap_append, List.flatMap_nil, hitems,
      Js.Piece.tokens, h1, h2, h3, Js.Value.tokens, Js.memberTokens, Js.Key.token]
    simp [Function.comp_def]
  reads := by
    have hitems := itemPieces_reads (items_sound songItem_sound l) false
    simp only [songsDoc, List.forall_mem_cons, List.forall_mem_append, hitems]
    simp [Js.Piece.reads]

/-! ## Which text is written -/

variable [Affinity]

/-- The song of a playlist has the names that its artist and its album have in the tables. -/
structure Named (db : Database) (s : Spinny.Song) (n : NamedSong) : Prop where
  song : n.song = s
  artist : ∃ a, db.artists.lookup s.artistId = some a ∧ n.artist = a.name.val
  album : ∃ a, db.albums.lookup s.albumId = some a ∧ n.album = a.name.val

/-- The requests that are answered with such a text. -/
inductive Asks (req : Request) : Prop where
  | songs (h1 : req.u1 = lit "pl") (h2 : req.u2 = lit "songs") (h3 : req.u3 = lit "list")
  | playLists (h1 : req.u1 = lit "pl") (h2 : req.u2 = lit "list")
  | dir (h1 : req.u1 = lit "tree") (h2 : req.u2 = lit "dir")
  | tag (h1 : req.u1 = lit "tree") (h2 : req.u2 = lit "tag")
  | found (h1 : req.u1 = lit "info") (h2 : req.u2 = lit "find")

/-- The handler that answers them. -/
def documentHandler (env : Env) (req : Request) : Act RequestStatus :=
  if req.u1 = lit "pl" then PL.handle env req
  else if req.u1 = lit "tree" then Tree.handle req
  else Info.handle env req

/-- The playlist of `/pl/songs/list`, in the order that is asked for, and its songs. -/
def listed (env : Env) (req : Request) : Act (PlayList × List Spinny.Song) := do
  let pl ← PlayList.load (← idValue req (lit "pl_id"))
  let pl ← PL.reorderBy req pl
  let start ← idValue req (lit "start")
  let limit ← idValue req (lit "limit")
  let songs ← pl.songs env (PL.asUnsigned start) (PL.asUnsigned limit)
  return (pl, ← songs.begin)

/-- The songs of `/info/find`, and how many match. -/
def found (req : Request) : Act (Nat × List Spinny.Song) := do
  let page : Nat := ((← unsignedValue req (lit "page")) + 2 ^ 32 - 1) % 2 ^ 32
  let num ← unsignedValue req (lit "pageSize")
  let query := req.svalue (lit "q")
  let songs ← Spinny.Song.find query (toInt32 (page * num)) (toInt32 num)
  return (← Spinny.Song.numMatching query, ← songs.begin)

/-- The rows behind the node of a tag. -/
inductive Tagged (w : World) (node : Bytes) : List Item → Prop where
  | starts {n : Nat} {l : List (UInt8 × Nat)} (h : node = lit "0")
      (hn : outcome Artist.count w = .ok n) (hmany : 100 < n)
      (hl : outcome Artist.startingChars w = .ok l) : Tagged w node (l.map startItem)
  | artists {n : Nat} {l : List Artist} (h : node = lit "0")
      (hn : outcome Artist.count w = .ok n) (hfew : ¬ 100 < n)
      (hl : outcome Artist.all w = .ok l) : Tagged w node (l.map artistItem)
  | startsWith {c : UInt8} {rest : Bytes} {l : List Artist} (h : node = 97 :: c :: rest)
      (hl : outcome (Artist.nameStartsWith (c :: rest)) w = .ok l) :
      Tagged w node (l.map artistItem)
  | albums {c : UInt8} {rest : Bytes} {id : Int} {artist : Artist} {l : List Album}
      (h : node = 98 :: c :: rest) (hid : toId (c :: rest) = some id)
      (hartist : outcome (Artist.load id) w = .ok artist)
      (hl : outcome artist.albums w = .ok l) : Tagged w node (l.map albumItem)
  | songs {c : UInt8} {rest : Bytes} {id : Int} {album : Album} {l : List Spinny.Song}
      (h : node = 99 :: c :: rest) (hid : toId (c :: rest) = some id)
      (halbum : outcome (Album.load id) w = .ok album)
      (hl : outcome album.songs w = .ok l) :
      Tagged w node (l.map fun s => nodeItem (Tree.songNode s))
  | other {letter c : UInt8} {rest : Bytes} (h : node = letter :: c :: rest)
      (hother : letter ≠ 97 ∧ letter ≠ 98 ∧ letter ≠ 99) : Tagged w node []

/-- What the answer is, from the rows in the tables. -/
inductive Written (env : Env) (req : Request) (w : World) : Doc → Prop where
  | songs {pl : PlayList} {rows : List Spinny.Song} {w' : World} {l : List NamedSong} {n : Nat}
      (h1 : req.u1 = lit "pl") (h2 : req.u2 = lit "songs") (h3 : req.u3 = lit "list")
      (hrows : Returns (listed env req) w (pl, rows) w')
      (hnames : List.Forall₂ (Named w'.db) rows l) (hsize : outcome pl.size w' = .ok n) :
      Written env req w (songsDoc n l)
  | playLists {l : List PlayListFields} (h1 : req.u1 = lit "pl") (h2 : req.u2 = lit "list")
      (hl : outcome PlayList.all w = .ok l) : Written env req w (playListsDoc l)
  | dir {id : Int} (h1 : req.u1 = lit "tree") (h2 : req.u2 = lit "dir")
      (hid : outcome (idValue req (lit "node")) w = .ok id) :
      Written env req w (treeDoc ((Tree.nodes w.db id).map nodeItem))
  | tag {items : List Item} (h1 : req.u1 = lit "tree") (h2 : req.u2 = lit "tag")
      (hitems : Tagged w (req.svalue (lit "node")) items) : Written env req w (treeDoc items)
  | found {n : Nat} {l : List Spinny.Song} (h1 : req.u1 = lit "info") (h2 : req.u2 = lit "find")
      (hl : outcome (found req) w = .ok (n, l)) : Written env req w (foundDoc n l)

theorem Tagged.sound {w : World} {node : Bytes} {items : List Item} (h : Tagged w node items) :
    ∀ i ∈ items, i.Sound 34 := by
  cases h with
  | starts _ _ _ _ => exact items_sound startItem_sound _
  | artists _ _ _ _ => exact items_sound artistItem_sound _
  | startsWith _ _ => exact items_sound artistItem_sound _
  | albums _ _ _ _ => exact items_sound albumItem_sound _
  | songs _ _ _ _ => exact items_sound (fun _ => nodeItem_sound (.inr rfl)) _
  | other _ _ => simp

theorem nodes_sound (db : Database) (dirId : Int) :
    ∀ i ∈ (Tree.nodes db dirId).map nodeItem, i.Sound 34 := by
  intro i hi
  obtain ⟨n, hn, rfl⟩ := List.mem_map.mp hi
  rcases List.mem_append.mp hn with hn | hn
  · obtain ⟨md, -, rfl⟩ := List.mem_map.mp hn
    exact nodeItem_sound (.inl rfl)
  · obtain ⟨song, -, rfl⟩ := List.mem_map.mp hn
    exact nodeItem_sound (.inr rfl)

theorem Written.sound {env : Env} {req : Request} {w : World} {d : Doc}
    (h : Written env req w d) : d.Sound := by
  cases h with
  | songs _ _ _ _ _ _ => exact songsDoc_sound _ _
  | playLists _ _ _ => exact playListsDoc_sound _
  | dir _ _ _ => exact treeDoc_sound (nodes_sound _ _)
  | tag _ _ hitems => exact treeDoc_sound hitems.sound
  | found _ _ _ => exact foundDoc_sound _ _

/-! ## The elements -/

section

variable {w : World}

/-- Texts that are those of items. -/
theorem emits_items {α : Type} {q : UInt8} {write : Bytes → α → Act Unit} {item : α → Item}
    (h : ∀ before a, Emits w (write before a) fun _ u =>
      u = before ++ (item a).pieces.flatMap (Js.Piece.text q)) (rows : List α) :
    Emits w (putEach write false rows) fun _ u =>
      u = (itemPieces false (rows.map item)).flatMap (Js.Piece.text q) := by
  refine (emits_putEach_text h false rows).imp ?_
  rintro _ _ ⟨-, rfl⟩
  exact (itemPieces_text q item false rows).symm

theorem playListItem_emits (before : Bytes) (p : PlayListFields) :
    Emits w (PL.putPlayList before p) fun _ u =>
      u = before ++ (playListItem p).pieces.flatMap (Js.Piece.text 34) := by
  refine Emits.put ?_
  simp only [playListItem, List.flatMap_cons, List.flatMap_nil, Js.Piece.text, jsonQ_eq]
  simp [lit]

omit [Affinity] in
theorem nodeItem_text (before : Bytes) (n : Tree.Node) :
    n.text before = before ++ (nodeItem n).pieces.flatMap (Js.Piece.text 34) := by
  simp only [Tree.Node.text, nodeItem, List.flatMap_cons, List.flatMap_nil, Js.Piece.text,
    escapeQuotes_eq, escaped_none]
  simp [lit]

theorem letteredItem_emits (before letter id text type : Bytes) (x : Option UInt8)
    (readable : Prop) :
    Emits w (Tree.insertNode before letter id (Js.escaped x text) type) fun _ u => u = before ++
      (letteredItem x (letter ++ id) text type readable).pieces.flatMap (Js.Piece.text 34) := by
  refine Emits.put ?_
  simp only [letteredItem, List.flatMap_cons, List.flatMap_nil, Js.Piece.text, escaped_none]
  simp [lit]

theorem foundItem_emits (before : Bytes) (s : Spinny.Song) :
    Emits w (Info.putSong before s) fun _ u =>
      u = before ++ (foundItem s).pieces.flatMap (Js.Piece.text 39) := by
  refine Emits.put ?_
  simp only [foundItem, List.flatMap_cons, List.flatMap_nil, Js.Piece.text, jsonQ_eq]
  simp [lit]

theorem reads_nameOfArtist (s : Spinny.Song) : Reads w s.nameOfArtist := by
  unfold Spinny.Song.nameOfArtist
  split
  · exact (reads_loadRow _ _ _).bind fun _ => Reads.pure _
  · exact Reads.pure _

theorem reads_nameOfAlbum (s : Spinny.Song) : Reads w s.nameOfAlbum := by
  unfold Spinny.Song.nameOfAlbum
  split
  · exact (reads_loadRow _ _ _).bind fun _ => Reads.pure _
  · exact Reads.pure _

theorem reads_idValue (req : Request) (name : Bytes) : Reads w (idValue req name) := Reads.cast _

theorem reads_unsignedValue (req : Request) (name : Bytes) : Reads w (unsignedValue req name) :=
  Reads.cast _

theorem reads_load (id : Int) : Reads w (PlayList.load id) := by
  unfold PlayList.load
  split
  · exact Reads.pure _
  · exact (reads_loadRow _ _ _).bind fun _ => Reads.pure _

theorem reads_songs (env : Env) (start limit : Nat) (pl : PlayList) :
    Reads w (pl.songs env start limit) := by
  refine Reads.of (fun t => ?_) fun t a h => ?_
  · rw [PlayList.outcome_songs, PlayList.outcome_songs]
    rfl
  · unfold PlayList.songs at h ⊢
    rw [outcome_bind_ok (outcome_get _), after_get] at h
    rw [after_bind_ok (outcome_get _), after_get]
    exact (reads_loadStored _).after h

theorem reads_size (pl : PlayList) : Reads w pl.size := by
  cases pl with
  | stored p => exact (reads_execSelect _ _).bind reads_countUnsigned
  | complete => exact (reads_execText _).bind reads_countUnsigned

/-- The name that is read of an artist is the one in its row. -/
theorem nameOfArtist_ok {s : Spinny.Song} {n : Bytes}
    (hs : s.artistName = w.db.artistName s.artistId) (h : outcome s.nameOfArtist w = .ok n) :
    ∃ a, w.db.artists.lookup s.artistId = some a ∧ n = a.name.val := by
  unfold Spinny.Song.nameOfArtist at h
  split at h
  · obtain ⟨artist, hartist, h⟩ := bind_eq_ok.mp h
    obtain rfl := Except.ok.inj h
    change outcome (loadRow Database.artists Artist.ofRow s.artistId) w = _ at hartist
    rw [loadRow, outcome_loadOne] at hartist
    split at hartist
    · cases hartist
    · cases hrow : w.db.artists.lookup s.artistId with
      | none => simp [hrow] at hartist
      | some a =>
        simp only [hrow, Option.map_some, Option.toList_some, Except.ok.injEq] at hartist
        exact ⟨a, rfl, by rw [← hartist]; rfl⟩
  · rename_i hne
    obtain rfl := Except.ok.inj h
    rw [hs] at hne ⊢
    unfold Database.artistName at hne ⊢
    cases hrow : w.db.artists.lookup s.artistId with
    | none => simp [hrow] at hne
    | some a => exact ⟨a, rfl, rfl⟩

theorem nameOfAlbum_ok {s : Spinny.Song} {n : Bytes}
    (hs : s.albumName = w.db.albumName s.albumId) (h : outcome s.nameOfAlbum w = .ok n) :
    ∃ a, w.db.albums.lookup s.albumId = some a ∧ n = a.name.val := by
  unfold Spinny.Song.nameOfAlbum at h
  split at h
  · obtain ⟨album, halbum, h⟩ := bind_eq_ok.mp h
    obtain rfl := Except.ok.inj h
    change outcome (loadRow Database.albums Album.ofRow s.albumId) w = _ at halbum
    rw [loadRow, outcome_loadOne] at halbum
    split at halbum
    · cases halbum
    · cases hrow : w.db.albums.lookup s.albumId with
      | none => simp [hrow] at halbum
      | some a =>
        simp only [hrow, Option.map_some, Option.toList_some, Except.ok.injEq] at halbum
        exact ⟨a, rfl, by rw [← halbum]; rfl⟩
  · rename_i hne
    obtain rfl := Except.ok.inj h
    rw [hs] at hne ⊢
    unfold Database.albumName at hne ⊢
    cases hrow : w.db.albums.lookup s.albumId with
    | none => simp [hrow] at hne
    | some a => exact ⟨a, rfl, rfl⟩

theorem songItem_emits (env : Env) (before : Bytes) (s : Spinny.Song)
    (hartist : s.artistName = w.db.artistName s.artistId)
    (halbum : s.albumName = w.db.albumName s.albumId) :
    Emits w (PL.putSong env before s) fun _ u =>
      ∃ n, Named w.db s n ∧ u = before ++ (songItem n).pieces.flatMap (Js.Piece.text 39) := by
  have hchain := emits_putChain (w := w) env [
    pure before, pure (lit "\x7b 'id':"), pure (showInt s.dbId),
    pure (lit ",'tr':"), pure (showInt s.track),
    pure (lit ",'tt':'"), pure (jsonQ s.title), pure (lit "', "),
    pure (lit "'at':'"), return jsonQ (← s.nameOfArtist), pure (lit "', "),
    pure (lit "'al':'"), return jsonQ (← s.nameOfAlbum), pure (lit "',"),
    pure (lit "'ln':"), pure (showInt s.length), pure (lit "\x7d\n")] (by
      simp only [List.forall_mem_cons, Reads.pure, true_and]
      exact ⟨(reads_nameOfArtist s).bind fun _ => Reads.pure _,
        (reads_nameOfAlbum s).bind fun _ => Reads.pure _, fun _ h => nomatch h⟩)
  refine hchain.imp ?_
  rintro _ _ ⟨vs, hvs, rfl⟩
  simp only [List.forall₂_cons_left_iff, List.forall₂_nil_left_iff, outcome_pure, Except.ok.injEq, existsAndEq, true_and, and_true] at hvs
  obtain ⟨u, v, ⟨hu, hv⟩, rfl⟩ := hvs
  obtain ⟨artist, hartist', hq⟩ := bind_eq_ok.mp hu
  obtain rfl := Except.ok.inj hq
  obtain ⟨album, halbum', hq⟩ := bind_eq_ok.mp hv
  obtain rfl := Except.ok.inj hq
  refine ⟨⟨s, artist, album⟩,
    ⟨rfl, nameOfArtist_ok hartist hartist', nameOfAlbum_ok halbum halbum'⟩, ?_⟩
  simp only [songItem, List.flatMap_cons, List.flatMap_nil, Js.Piece.text, jsonQ_eq]
  simp [lit]

end

/-! ## The handlers -/

section

variable {env : Env} {req : Request} {w : World}

/-- The orders leave the reply alone. -/
theorem reorderBy_rep (req : Request) (pl : PlayList) (w : World) :
    (after (PL.reorderBy req pl) w).rep = w.rep := by
  unfold PL.reorderBy
  split
  · cases pl with
    | complete => rfl
    | stored p =>
      unfold PlayList.setOrder
      dsimp only
      split
      · rfl
      · rw [after_bind]
        have hsave : ∀ p : PlayListFields, (after (PlayList.save (.stored p)) w).rep = w.rep := by
          intro p
          rw [PlayList.after_save_stored, PlayListFields.after_save]
          cases w.stale <;> cases p.toRow <;> rfl
        split <;> exact hsave _
  · rfl

/-- The rows of the statements of `songs` have the names that their artists and albums have. -/
theorem songsStatement_named {pl : PlayList} {start limit : Nat} {c : CompletePlayList}
    {rs : ResultSet Spinny.Song} {db : Database} {rows : List Spinny.Song}
    (hrs : pl.songsStatement env start limit c = some rs) (hrows : rs.rows db = some rows) :
    ∀ s ∈ rows, s.artistName = db.artistName s.artistId ∧ s.albumName = db.albumName s.albumId := by
  cases pl with
  | stored p =>
    obtain ⟨order, -, rfl⟩ := Option.map_eq_some_iff.mp hrs
    obtain ⟨joined, -, rfl⟩ := Option.map_eq_some_iff.mp hrows
    intro s hs
    obtain ⟨j, -, rfl⟩ := List.mem_map.mp hs
    exact ⟨rfl, rfl⟩
  | complete =>
    obtain ⟨order, -, rfl⟩ := Option.map_eq_some_iff.mp hrs
    obtain ⟨songs, -, rfl⟩ := Option.map_eq_some_iff.mp hrows
    intro s hs
    obtain ⟨j, -, rfl⟩ := List.mem_map.mp hs
    exact ⟨rfl, rfl⟩

/-- What `/pl/songs/list` writes once it has the statement of the songs. -/
theorem songs_emits {pl : PlayList} {rs : ResultSet Spinny.Song}
    (hnames : ∀ rows, rs.rows w.db = some rows → ∀ s ∈ rows,
      s.artistName = w.db.artistName s.artistId ∧ s.albumName = w.db.albumName s.albumId) :
    Emits w (do
      put (lit "\x7b Songs:  [ \n")
      let _ ← putEach (PL.putSong env) false (← rs.begin)
      putChain env [pure (lit "], Size: "), return decimal (← pl.size), pure (lit " \x7d\n")])
      fun _ u => ∃ rows l n, outcome rs.begin w = .ok rows ∧
        List.Forall₂ (Named w.db) rows l ∧ outcome pl.size w = .ok n ∧
        u = (songsDoc n l).text := by
  refine Emits.bind (Emits.put (Q := fun _ u => u = lit "\x7b Songs:  [ \n") rfl) ?_
  rintro _ _ rfl
  refine (reads_begin rs).then fun rows hrows => ?_
  have hnamed : ∀ s ∈ rows,
      s.artistName = w.db.artistName s.artistId ∧ s.albumName = w.db.albumName s.albumId := by
    rw [outcome_begin] at hrows
    cases h : rs.rows w.db with
    | none => simp [h] at hrows
    | some rows' =>
      simp only [h, Except.ok.injEq] at hrows
      exact hnames rows (by rw [h, hrows])
  refine (emits_putEach false fun before s hs =>
    songItem_emits env before s (hnamed s hs).1 (hnamed s hs).2).bind ?_
  rintro _ _ ⟨-, l, hl, rfl⟩
  have hoperands : ∀ x ∈ [pure (lit "], Size: "), (return decimal (← pl.size) : Act Bytes),
      pure (lit " \x7d\n")], Reads w x := by
    simp only [List.forall_mem_cons, Reads.pure, true_and]
    exact ⟨(reads_size pl).bind fun _ => Reads.pure _, fun _ h => nomatch h⟩
  refine (emits_putChain env _ hoperands).imp ?_
  rintro _ _ ⟨vs, hvs, rfl⟩
  simp only [List.forall₂_cons_left_iff, List.forall₂_nil_left_iff, outcome_pure,
    Except.ok.injEq, existsAndEq, true_and, and_true] at hvs
  obtain ⟨u, hu, rfl⟩ := hvs
  obtain ⟨n, hn, hq⟩ := bind_eq_ok.mp hu
  obtain rfl := Except.ok.inj hq
  have htext := itemPieces_text 39 songItem false l
  refine ⟨rows, l, n, hrows, hl, hn, ?_⟩
  simp only [Doc.text, songsDoc, List.flatMap_cons, List.flatMap_append, List.flatMap_nil, htext,
    Js.Piece.text]
  simp [showInt]

/-- `/pl/songs/list` answers with the songs that are listed. -/
theorem list_written (h1 : req.u1 = lit "pl") (h2 : req.u2 = lit "songs")
    (h3 : req.u3 = lit "list") (hok : outcome (PL.answer env req) w = .ok ()) :
    ∃ d, Written env req w d ∧
      (after (PL.answer env req) w).rep.content = w.rep.content ++ d.text := by
  have hanswer : PL.answer env req = (do
      let pl ← PlayList.load (← idValue req (lit "pl_id"))
      PL.list env req pl) := by
    unfold PL.answer PL.songs
    simp only [h2, h3, if_true]
  rw [hanswer] at hok ⊢
  unfold PL.list at hok ⊢
  obtain ⟨id, hid, hok, hafter⟩ := Reads.step (reads_idValue _ _) hok
  rw [hafter]
  obtain ⟨pl₀, hload, hok, hafter⟩ := Reads.step (reads_load id) hok
  rw [hafter]
  obtain ⟨pl, horder, hok⟩ := bind_eq_ok.mp hok
  rw [after_bind_ok horder]
  have hrep := reorderBy_rep req pl₀ w
  generalize hw' : after (PL.reorderBy req pl₀) w = w' at hok hrep ⊢
  obtain ⟨start, hstart, hok, hafter⟩ := Reads.step (reads_idValue _ _) hok
  rw [hafter]
  obtain ⟨limit, hlimit, hok, hafter⟩ := Reads.step (reads_idValue _ _) hok
  rw [hafter]
  obtain ⟨rs, hrs, hok, hafter⟩ := Reads.step (reads_songs _ _ _ _) hok
  rw [hafter, ← hrep]
  have hstatement : pl.songsStatement env (PL.asUnsigned start) (PL.asUnsigned limit) w'.complete =
      some rs := by
    rw [PlayList.outcome_songs] at hrs
    split at hrs
    · split at hrs
      · cases hrs
      · obtain rfl := Except.ok.inj hrs
        assumption
    · cases hrs
  obtain ⟨u, ⟨rows, l, n, hrows, hnames, hsize, rfl⟩, hcontent⟩ :=
    (songs_emits fun rows => songsStatement_named hstatement).content hok
  refine ⟨songsDoc n l, .songs h1 h2 h3 ?_ hnames hsize, hcontent⟩
  unfold listed
  exact (Reads.returns (reads_idValue _ _) hid).bind ((Reads.returns (reads_load id) hload).bind
    (Returns.bind ⟨horder, hw'⟩ ((Reads.returns (reads_idValue _ _) hstart).bind
      ((Reads.returns (reads_idValue _ _) hlimit).bind ((Reads.returns (reads_songs _ _ _ _) hrs).bind
        ((Reads.returns (reads_begin rs) hrows).bind (Returns.pure _ _)))))))

theorem playLists_emits :
    Emits w PL.listAll fun _ u => ∃ l, outcome PlayList.all w = .ok l ∧ u = (playListsDoc l).text := by
  unfold PL.listAll
  refine Emits.bind (Emits.put (Q := fun _ u => u = lit "\x7bPlaylists: [") rfl) ?_
  rintro _ _ rfl
  refine Reads.then (reads_loadRows _ _) fun l hl => (emits_items playListItem_emits l).bind ?_
  rintro _ _ rfl
  refine Emits.put ⟨l, hl, ?_⟩
  simp [Doc.text, playListsDoc, Js.Piece.text]

/-! ### The nodes of the trees -/

theorem insertDir_emits (before : Bytes) (md : MusicDir) :
    Emits w (Tree.insertDir before md) fun _ u => u = (Tree.dirNode w.db md).text before := by
  unfold Tree.insertDir
  refine Reads.then (reads_execSelect _ _) fun children hchildren =>
    Reads.then (reads_execSelect _ _) fun songs hsongs => Emits.put ?_
  rw [execSelect_ok hchildren, execSelect_ok hsongs]
  rfl

theorem insertSong_emits (before : Bytes) (s : Spinny.Song) :
    Emits w (Tree.insertSong before s) fun _ u => u = (Tree.songNode s).text before := Emits.put rfl

theorem cast_ok {α : Type} {o : Option α} {a : α} (h : outcome (Spinny.cast o) w = .ok a) :
    o = some a := by
  cases o with
  | none => cases h
  | some b => exact congrArg some (Except.ok.inj h)

theorem loadRow_id {id : Int} {md : MusicDir} (h : outcome (MusicDir.load id) w = .ok md) :
    md.dbId = id := by
  change outcome (loadRow Database.musicDirs MusicDir.ofRow id) w = _ at h
  rw [loadRow, outcome_loadOne] at h
  split at h
  · cases h
  · cases hrow : w.db.musicDirs.lookup id with
    | none => simp [hrow] at h
    | some row =>
      simp only [hrow, Option.map_some, Option.toList_some, Except.ok.injEq] at h
      rw [← h]
      rfl

theorem dir_emits :
    Emits w (Tree.dir req) fun _ u => ∃ id, outcome (idValue req (lit "node")) w = .ok id ∧
      u = Tree.nodesText false (Tree.nodes w.db id) := by
  unfold Tree.dir
  refine (reads_idValue _ _).then fun id hid => ?_
  refine Reads.then (reads_loadRows _ _) fun rs hrs => ?_
  refine Reads.then ?opened fun dirs hdirs => ?_
  case opened =>
    split
    · split
      · exact reads_loadRows _ _
      · exact Reads.pure _
    · exact Reads.pure _
  have hshown : dirs = Tree.shownDirs w.db id := by
    have hrs' : rs = MusicDir.childList w.db id := loadRows_ok hrs
    unfold Tree.shownDirs
    rw [← hrs']
    rcases rs with _ | ⟨root, _ | ⟨md, rest⟩⟩
    · exact (Except.ok.inj hdirs).symm
    · dsimp only at hdirs ⊢
      by_cases hc : id = 0
      · rw [if_pos hc] at hdirs ⊢
        exact loadRows_ok hdirs
      · rw [if_neg hc] at hdirs ⊢
        exact (Except.ok.inj hdirs).symm
    · exact (Except.ok.inj hdirs).symm
  rw [hshown]
  refine (emits_putEach_text insertDir_emits false _).bind ?_
  rintro used _ ⟨rfl, rfl⟩
  -- Only below the root songs follow, and the directory is loaded for them.
  by_cases hc : id = 0
  · rw [if_neg (not_not.mpr hc)]
    refine Emits.pure ⟨id, hid, ?_⟩
    rw [Tree.nodesText, Tree.nodes, Tree.shownSongs, if_pos hc, List.map_nil, List.append_nil,
      List.append_nil, eachText_map]
  · rw [if_pos hc]
    refine Reads.then (reads_loadRow _ _ _) fun md hmd => ?_
    refine Reads.then (reads_loadRows _ _) fun songs hsongs => ?_
    refine (emits_putEach_text insertSong_emits _ songs).bind ?_
    rintro used _ ⟨rfl, rfl⟩
    refine Emits.pure ⟨id, hid, ?_⟩
    have hmdId : md.dbId = id := loadRow_id hmd
    have hlist : songs = MusicDir.songList w.db id := by
      rw [← hmdId]
      exact loadRows_ok hsongs
    rw [Tree.nodesText, Tree.nodes, Tree.shownSongs, if_neg hc, eachText_append,
      List.isEmpty_map, ← eachText_map Tree.Node.text (Tree.dirNode w.db),
      ← eachText_map Tree.Node.text Tree.songNode, hlist, List.append_nil]

theorem startItem_emits (before : Bytes) (c : UInt8 × Nat) :
    Emits w (Tree.insertStart before c) fun _ u =>
      u = before ++ (startItem c).pieces.flatMap (Js.Piece.text 34) := by
  have h := letteredItem_emits (w := w) before (lit "a") [c.1] [c.1] (lit "artist") none
    (c.1 ≠ 34 ∧ Calm [c.1])
  rwa [escaped_none] at h

theorem artistItem_emits (before : Bytes) (a : Artist) :
    Emits w (Tree.insertArtist before a) fun _ u =>
      u = before ++ (artistItem a).pieces.flatMap (Js.Piece.text 34) := by
  have h := letteredItem_emits (w := w) before (lit "b") (showInt a.dbId) a.name (lit "artist")
    (some 34) (Calm a.name)
  rwa [← escapeQuotes_eq] at h

theorem albumItem_emits (before : Bytes) (a : Album) :
    Emits w (Tree.insertAlbum before a) fun _ u =>
      u = before ++ (albumItem a).pieces.flatMap (Js.Piece.text 34) := by
  have h := letteredItem_emits (w := w) before (lit "c") (showInt a.dbId) a.name (lit "album")
    (some 34) (Calm a.name)
  rwa [← escapeQuotes_eq] at h

theorem songNode_emits (before : Bytes) (s : Spinny.Song) :
    Emits w (Tree.insertSong before s) fun _ u =>
      u = before ++ (nodeItem (Tree.songNode s)).pieces.flatMap (Js.Piece.text 34) := by
  rw [← nodeItem_text]
  exact insertSong_emits before s

/-- An answer that consists of the items of rows. -/
theorem emits_rows {α : Type} {write : Bytes → α → Act Unit} {item : α → Item}
    (h : ∀ before a, Emits w (write before a) fun _ u =>
      u = before ++ (item a).pieces.flatMap (Js.Piece.text 34)) {rows : List α}
    {P : List Item → Prop} (hP : P (rows.map item)) :
    Emits w (do let _ ← putEach write false rows) fun _ u =>
      ∃ items, P items ∧ u = (itemPieces false items).flatMap (Js.Piece.text 34) := by
  refine (emits_items h rows).bind ?_
  rintro _ _ rfl
  exact Emits.pure ⟨_, hP, List.append_nil _⟩

theorem reads_startingChar (group : Bytes × Nat) : Reads w (startingChar group) := by
  unfold startingChar
  exact (Reads.cast _).bind fun _ => (reads_countUnsigned _).bind fun _ => Reads.pure _

theorem node_emits {node : Bytes} {letter c : UInt8} {rest : Bytes}
    (h : node = letter :: c :: rest) :
    Emits w (Tree.node letter (c :: rest)) fun _ u => ∃ items, Tagged w node items ∧
      u = (itemPieces false items).flatMap (Js.Piece.text 34) := by
  unfold Tree.node
  split
  · rename_i ha
    subst ha
    exact Reads.then (reads_loadRows _ _) fun l hl => emits_rows artistItem_emits (.startsWith h hl)
  · rename_i ha
    split
    · rename_i hb
      subst hb
      refine Reads.then (Reads.cast _) fun id hid => ?_
      refine Reads.then (reads_loadRow _ _ _) fun artist hartist => ?_
      exact Reads.then (reads_loadRows _ _) fun l hl =>
        emits_rows albumItem_emits (.albums h (cast_ok hid) hartist hl)
    · rename_i hb
      split
      · rename_i hc
        subst hc
        refine Reads.then (Reads.cast _) fun id hid => ?_
        refine Reads.then (reads_loadRow _ _ _) fun album halbum => ?_
        exact Reads.then (reads_loadRows _ _) fun l hl =>
          emits_rows songNode_emits (.songs h (cast_ok hid) halbum hl)
      · rename_i hc
        exact Emits.pure ⟨[], .other h ⟨ha, hb, hc⟩, rfl⟩

theorem tag_emits :
    Emits w (Tree.tag req) fun _ u => ∃ items, Tagged w (req.svalue (lit "node")) items ∧
      u = (itemPieces false items).flatMap (Js.Piece.text 34) := by
  unfold Tree.tag
  dsimp only
  generalize req.svalue (lit "node") = node
  split
  · rename_i h0
    unfold Tree.artists
    refine Reads.then (reads_execSelect _ _) fun n hn => ?_
    split
    · rename_i hmany
      have hstarts : Reads w Artist.startingChars :=
        (reads_execText _).bind fun _ => Reads.mapM reads_startingChar _
      exact hstarts.then fun l hl => emits_rows startItem_emits (.starts h0 hn hmany hl)
    · rename_i hfew
      exact Reads.then (reads_loadRows _ _) fun l hl =>
        emits_rows artistItem_emits (.artists h0 hn hfew hl)
  · split
    · exact node_emits rfl
    · exact fun _ _ h => nomatch h

/-! ### The whole answers -/

/-- `Tree` writes the nodes. -/
theorem nodes_emits (h1 : req.u1 = lit "tree") (h2 : req.u2 = lit "dir" ∨ req.u2 = lit "tag") :
    Emits w (do
      put (lit "[")
      Tree.answer req
      put (lit "\n]")) fun _ u => ∃ d, Written env req w d ∧ u = d.text := by
  have hanswer : Emits w (Tree.answer req) fun _ u => ∃ items, Written env req w (treeDoc items) ∧
      u = (itemPieces false items).flatMap (Js.Piece.text 34) := by
    unfold Tree.answer
    by_cases hdir : req.u2 = lit "dir"
    · rw [if_pos hdir]
      refine dir_emits.imp ?_
      rintro _ _ ⟨id, hid, rfl⟩
      refine ⟨_, .dir h1 hdir hid, ?_⟩
      rw [itemPieces_text, Tree.nodesText]
      exact congrArg (fun text => eachText text false _)
        (funext fun before => funext fun n => nodeItem_text before n)
    · have htag := h2.resolve_left hdir
      rw [if_neg hdir, if_pos htag]
      refine tag_emits.imp ?_
      rintro _ _ ⟨items, hitems, rfl⟩
      exact ⟨items, .tag h1 htag hitems, rfl⟩
  refine Emits.bind (Emits.put (Q := fun _ u => u = lit "[") rfl) ?_
  rintro _ _ rfl
  refine hanswer.bind ?_
  rintro _ _ ⟨items, hitems, rfl⟩
  refine Emits.put ⟨_, hitems, ?_⟩
  simp [Doc.text, treeDoc, Js.Piece.text]

/-- `/info/find` answers with the songs that were found. -/
theorem find_emits :
    Emits w (Info.find env req) fun _ u => ∃ n l, outcome (found req) w = .ok (n, l) ∧
      u = (foundDoc n l).text := by
  unfold Info.find
  refine (reads_unsignedValue _ _).then fun page hpage => ?_
  refine (reads_unsignedValue _ _).then fun num hnum => ?_
  dsimp only
  refine Reads.then (reads_loadStored _) fun rs hrs => ?_
  have hmatching : Reads w (Spinny.Song.numMatching (req.svalue (lit "q"))) :=
    (reads_execSelect _ _).bind reads_countUnsigned
  have hoperands : ∀ x ∈ [pure (lit "\x7b TotalCount:"),
      (return decimal (← Spinny.Song.numMatching (req.svalue (lit "q"))) : Act Bytes),
      pure (lit ",\nSongs: [ \n")], Reads w x := by
    simp only [List.forall_mem_cons, Reads.pure, true_and]
    exact ⟨hmatching.bind fun _ => Reads.pure _, fun _ h => nomatch h⟩
  refine (emits_putChain env _ hoperands).bind ?_
  rintro _ _ ⟨vs, hvs, rfl⟩
  simp only [List.forall₂_cons_left_iff, List.forall₂_nil_left_iff, outcome_pure,
    Except.ok.injEq, existsAndEq, true_and, and_true] at hvs
  obtain ⟨u, hu, rfl⟩ := hvs
  obtain ⟨n, hn, hq⟩ := bind_eq_ok.mp hu
  obtain rfl := Except.ok.inj hq
  refine Reads.then (reads_begin rs) fun l hl => (emits_items foundItem_emits l).bind ?_
  rintro _ _ rfl
  refine Emits.put ⟨n, l, ?_, ?_⟩
  · unfold found
    exact (Returns.bind (Reads.returns (reads_unsignedValue _ _) hpage)
      (Returns.bind (Reads.returns (reads_unsignedValue _ _) hnum)
        (Returns.bind (Reads.returns (reads_loadStored _) hrs)
          (Returns.bind (Reads.returns hmatching hn)
            (Returns.bind (Reads.returns (reads_begin rs) hl) (Returns.pure (n, l) w)))))).outcome
  · simp [Doc.text, foundDoc, Js.Piece.text, showInt]

/-- What sets headers behind an answer leaves its text. -/
theorem content_then {x : Act Unit} {P : Doc → Prop} (f : Reply → Reply)
    (hf : ∀ rep, (f rep).content = rep.content)
    (hx : Emits w x fun _ u => ∃ d, P d ∧ u = d.text)
    (hok : outcome (x >>= fun _ => do modifyRep f; return RequestStatus.stop) w = .ok .stop) :
    ∃ d, P d ∧ (after (x >>= fun _ => do modifyRep f; return RequestStatus.stop) w).rep.content =
      w.rep.content ++ d.text := by
  obtain ⟨_, hxok, -⟩ := bind_eq_ok.mp hok
  obtain ⟨_, ⟨d, hd, rfl⟩, hcontent⟩ := hx.content hxok
  refine ⟨d, hd, ?_⟩
  rw [after_bind_ok hxok]
  exact (hf _).trans hcontent

/-- `Tree` answers with the nodes. -/
theorem tree_written (h1 : req.u1 = lit "tree") (h2 : req.u2 = lit "dir" ∨ req.u2 = lit "tag")
    (hok : outcome (Tree.handle req) w = .ok .stop) :
    ∃ d, Written env req w d ∧
      (after (Tree.handle req) w).rep.content = w.rep.content ++ d.text := by
  have hhandle : Tree.handle req = (do
      put (lit "[")
      Tree.answer req
      put (lit "\n]")) >>= fun _ => (do
        modifyRep fun rep => rep.setBasicHeaders (lit "json")
        return .stop) := by
    unfold Tree.handle
    rw [if_neg (not_not.mpr h1)]
    simp only [bind_assoc]
  rw [hhandle] at hok ⊢
  exact content_then _ (fun _ => rfl) (nodes_emits h1 h2) hok

/-- `Info` answers with the songs. -/
theorem find_written (h1 : req.u1 = lit "info") (h2 : req.u2 = lit "find")
    (hok : outcome (Info.handle env req) w = .ok .stop) :
    ∃ d, Written env req w d ∧
      (after (Info.handle env req) w).rep.content = w.rep.content ++ d.text := by
  have hanswer : Info.answer env req = Info.find env req := by
    unfold Info.answer
    rw [if_neg (by rw [h2]; decide), if_pos h2]
  have hemits : Emits w (Info.find env req) fun _ u => ∃ d, Written env req w d ∧ u = d.text := by
    refine find_emits.imp ?_
    rintro _ _ ⟨n, l, hl, rfl⟩
    exact ⟨_, .found h1 h2 hl, rfl⟩
  unfold Info.handle at hok ⊢
  rw [if_neg (not_not.mpr h1), hanswer] at hok ⊢
  exact content_then _ (fun _ => rfl) hemits hok

/-- `PL` answers with the songs of a playlist or with the playlists. -/
theorem pl_written (h1 : req.u1 = lit "pl")
    (h2 : req.u2 = lit "songs" ∧ req.u3 = lit "list" ∨ req.u2 = lit "list")
    (hok : outcome (PL.handle env req) w = .ok .stop) :
    ∃ d, Written env req w d ∧
      (after (PL.handle env req) w).rep.content = w.rep.content ++ d.text := by
  unfold PL.handle at hok ⊢
  rw [if_neg (not_not.mpr h1)] at hok ⊢
  obtain ⟨_, hok, -⟩ := bind_eq_ok.mp hok
  rw [after_bind_ok hok]
  rcases h2 with ⟨h2, h3⟩ | h2
  · exact list_written h1 h2 h3 hok
  · have hlist : PL.answer env req = PL.listAll := by
      unfold PL.answer
      rw [if_neg (by rw [h2]; decide), if_pos h2]
    rw [hlist] at hok ⊢
    obtain ⟨_, ⟨l, hl, rfl⟩, hcontent⟩ := playLists_emits.content hok
    exact ⟨_, .playLists h1 h2 hl, hcontent⟩

/-- The handlers answer with the texts that the tables give. -/
theorem asked_written (hasks : Asks req) (hok : outcome (documentHandler env req) w = .ok .stop) :
    ∃ d, Written env req w d ∧
      (after (documentHandler env req) w).rep.content = w.rep.content ++ d.text := by
  unfold documentHandler at hok ⊢
  cases hasks with
  | songs h1 h2 h3 =>
    rw [if_pos h1] at hok ⊢
    exact pl_written h1 (.inl ⟨h2, h3⟩) hok
  | playLists h1 h2 =>
    rw [if_pos h1] at hok ⊢
    exact pl_written h1 (.inr h2) hok
  | dir h1 h2 =>
    have hne : req.u1 ≠ lit "pl" := by rw [h1]; decide
    rw [if_neg hne, if_pos h1] at hok ⊢
    exact tree_written h1 (.inl h2) hok
  | tag h1 h2 =>
    have hne : req.u1 ≠ lit "pl" := by rw [h1]; decide
    rw [if_neg hne, if_pos h1] at hok ⊢
    exact tree_written h1 (.inr h2) hok
  | found h1 h2 =>
    have hne : req.u1 ≠ lit "pl" := by rw [h1]; decide
    have hne' : req.u1 ≠ lit "tree" := by rw [h1]; decide
    rw [if_neg hne, if_neg hne'] at hok ⊢
    exact find_written h1 h2 hok

end

/-- An answer that the page reads as JavaScript denotes the rows it was written from exactly if
each of its strings comes through the quotes and the escapes it is written with. -/
theorem documents_iff {env : Env} {req : Request} {w : World} (hasks : Asks req)
    (hok : outcome (documentHandler env req) w = .ok .stop) :
    ∃ d, Written env req w d ∧
      (after (documentHandler env req) w).rep.content = w.rep.content ++ d.text ∧
      (Js.Denotes d.text d.value ↔ d.readable) := by
  obtain ⟨d, hd, hcontent⟩ := asked_written hasks hok
  exact ⟨d, hd, hcontent, hd.sound.denotes_iff⟩

/-! ## A name with a backslash -/

omit [Affinity] in
theorem nulFree_backslash : nulFree [92] = true := rfl

/-- A library whose only playlist has a backslash for its name. -/
def backslash : Database :=
  { Database.empty with
    playlists := .single 2 ⟨.ofLiteral [92] nulFree_backslash, .empty,
      .ofLiteral (lit "present_order desc") nulFree_newOrder, 0⟩ }

omit [Affinity] in
/-- `/pl/list`. -/
def listRequest : Request := .forUrl (lit "/pl/list") ∅

omit [Affinity] in
theorem listRequest_asks : Asks listRequest := .playLists rfl rfl

theorem putPlayLists_ok (used : Bool) (l : List PlayListFields) (w : World) :
    ∃ u, outcome (putEach PL.putPlayList used l) w = .ok u := by
  induction l generalizing used w with
  | nil => exact ⟨used, rfl⟩
  | cons p l ih =>
    unfold putEach
    rw [List.foldlM_cons]
    exact ih true _

/-- The request is answered where the statement buffer is empty. -/
theorem listRequest_answered (env : Env) {w : World} (hs : w.stale = false) :
    outcome (documentHandler env listRequest) w = .ok .stop := by
  have hst : (w.wrote (lit "\x7bPlaylists: [")).stale = false := hs
  have hlist : outcome PL.listAll w = .ok () := by
    obtain ⟨u, hu⟩ := putPlayLists_ok false _ (w.wrote (lit "\x7bPlaylists: ["))
    unfold PL.listAll PlayList.all
    rw [outcome_bind_ok (put_returns w _).outcome, (put_returns w _).after,
      outcome_bind_ok (listRows_returns hst _).outcome, (listRows_returns hst _).after,
      outcome_bind_ok hu]
    rfl
  change outcome (PL.listAll >>= fun _ => _) w = _
  rw [outcome_bind_ok hlist]
  rfl

omit [Affinity] in
/-- The playlists of a library are listed as an object. -/
theorem backslash_answered : ∃ _ : Affinity, ∃ d,
    Written .plain listRequest (.start backslash) d ∧
      (after (documentHandler .plain listRequest) (.start backslash)).rep.content =
        (World.start backslash).rep.content ++ d.text ∧
      (Js.Denotes d.text d.value ↔ d.readable) :=
  ⟨integerAffinity, @documents_iff integerAffinity _ _
    (@World.start integerAffinity (@backslash integerAffinity)) listRequest_asks
    (@listRequest_answered integerAffinity _ _ rfl)⟩

omit [Affinity] in
/-- The backslash takes the closing quote into the name, and the text is no literal. -/
theorem backslash_unread : ∃ _ : Affinity,
    let w := World.start backslash
    Asks listRequest ∧ outcome (documentHandler .plain listRequest) w = .ok .stop ∧
      ∀ v, ¬ Js.Denotes (after (documentHandler .plain listRequest) w).rep.content v := by
  let _ := integerAffinity
  refine ⟨integerAffinity, listRequest_asks, listRequest_answered _ rfl, fun v hv => ?_⟩
  obtain ⟨d, hd, hcontent⟩ :=
    asked_written listRequest_asks (listRequest_answered .plain (w := .start backslash) rfl)
  rw [hcontent] at hv
  cases hd with
  | songs _ h2 _ _ _ _ => exact absurd h2 (by decide)
  | dir h1 _ _ => exact absurd h1 (by decide)
  | tag h1 _ _ => exact absurd h1 (by decide)
  | found h1 _ _ => exact absurd h1 (by decide)
  | playLists _ _ hl =>
    have hrows : ∀ p : PlayListFields, ((orderByUpper PlayListFields.name [p]).mergeSort
        fun a b => decide (a.presentOrder ≤ b.presentOrder)) = [p] := by
      simp [orderByUpper]
    obtain rfl := (loadRows_ok hl).trans (hrows _)
    have hnone : Js.tokens (playListsDoc [.ofRow 2
      ⟨.ofLiteral [92] rfl, .empty, .ofLiteral (lit "present_order desc") rfl, 0⟩]).text = none := by
      decide +kernel
    exact Option.some_ne_none _ (hv.symm.trans hnone)

end Handlers

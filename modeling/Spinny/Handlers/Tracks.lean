import Spinny.Handlers.Documents
import Spinny.Handlers.Streams
import Spinny.Lib.Xml

/-!
# Playlists for a player

`Xspf` writes the songs of a playlist as a text in the format HDF, from which the template
`xspf.html` makes a document of XML. What is put into a value of HDF is escaped as if it stood in
double quotes, and what the template puts into the document is not escaped at all.

* `hdfText`, `page`: the text and the document; `hdfValue`: a value as ClearSilver reads it.
* `Kept`: the strings that come through; `kept_iff`.
* `playlist_shows_iff`: when the document of values is that of the playlist.
* `handle_written`: what the handler has written when it stops.
-/

namespace Handlers.Xspf

open Bytes Boost Spinny Sqlite Ews Proc

/-! ## The text and the document -/

/-- The values that are written for a song. -/
structure HdfSong where
  url : Bytes
  album : Bytes
  artist : Bytes
  title : Bytes
  length : Bytes
  image : Bytes

namespace HdfSong

/-- The lines that are written for a song. -/
def text (num : Nat) (s : HdfSong) : Bytes :=
  lit "  " ++ decimal num ++ lit " \x7b" ++ lit "\n     url=" ++ s.url ++ lit "\n     album=" ++
    s.album ++ lit "\n     artist=" ++ s.artist ++ lit "\n     title=" ++ s.title ++
    lit "\n     length=" ++ s.length ++ lit "\n     image=" ++ s.image ++ lit "\n    \x7d\n"

/-- The values. -/
def values (s : HdfSong) : List Bytes := [s.url, s.album, s.artist, s.title, s.length, s.image]

/-- A change of all values. -/
def map (f : Bytes → Bytes) (s : HdfSong) : HdfSong :=
  ⟨f s.url, f s.album, f s.artist, f s.title, f s.length, f s.image⟩

end HdfSong

/-- The text that is written for songs. -/
def hdfText (songs : List HdfSong) : Bytes :=
  lit "Songs \x7b\n" ++ (songs.zipIdx.flatMap fun s => s.1.text (s.2 + 1)) ++ lit "\x7d\n"

/-- `xspf.html`: what stands between `each` and `/each`. -/
def track (s : HdfSong) : Bytes :=
  lit "        <track>\n            <location>" ++ s.url ++
    lit "</location>\n            <album>" ++ s.album ++
    lit "</album>\n            <creator>" ++ s.artist ++
    lit "</creator>\n            <title>" ++ s.title ++
    lit "</title>\n            <duration>" ++ s.length ++
    lit "</duration>\n            <image>" ++ s.image ++
    lit "</image>\n        </track>\n"

/-- `xspf.html`. -/
def page (name description : Bytes) (songs : List HdfSong) : Bytes :=
  lit "<?xml version=\"1.0\" encoding=\"UTF-8\"?>\n<playlist version=\"1\" " ++
    lit "xmlns=\"http://xspf.org/ns/0/\">\n    <title>" ++ name ++
    lit "</title>\n    <info>" ++ description ++
    lit "</info>\n    <trackList>\n" ++ songs.flatMap track ++
    lit "    </trackList>\n</playlist>\n"

/-- `neos_strip`. -/
def strip (t : Bytes) : Bytes := (t.rdropWhile isSpace).dropWhile isSpace

/-- A value in a text of HDF: up to the end of its line, without the white space around it. -/
def hdfValue (t : Bytes) : Bytes := strip (t.takeWhile (· ≠ 10))

/-- The values that are set for the template. -/
def hdfOf (name description : Bytes) : List (Bytes × HdfValue) :=
  [(lit "name", .text name), (lit "description", .text description)]

/-! ## The document that is meant -/

/-- The values of a song of a playlist, for links with a ticket. -/
def songValues (ticket : Bytes) (s : NamedSong) : HdfSong where
  url := lit "/song/dl/" ++ ticket ++ lit "/" ++ showInt s.song.dbId
  album := s.album
  artist := s.artist
  title := s.song.title
  length := milliseconds s.song
  image := lit "/song/img/" ++ ticket ++ lit "/" ++ showInt s.song.dbId

/-- The values as the handler writes them. -/
def written (s : HdfSong) : HdfSong :=
  { s with album := escapeQuotes s.album, artist := escapeQuotes s.artist,
           title := escapeQuotes s.title }

/-- The track of a song. -/
def trackNode (s : HdfSong) : Xml.Node :=
  .element (lit "track") [] [
    .text (lit "\n            "), Xml.leaf (lit "location") s.url,
    .text (lit "\n            "), Xml.leaf (lit "album") s.album,
    .text (lit "\n            "), Xml.leaf (lit "creator") s.artist,
    .text (lit "\n            "), Xml.leaf (lit "title") s.title,
    .text (lit "\n            "), Xml.leaf (lit "duration") s.length,
    .text (lit "\n            "), Xml.leaf (lit "image") s.image,
    .text (lit "\n        ")]

/-- The tracks of songs. -/
def trackNodes (songs : List HdfSong) : List Xml.Node :=
  (songs.flatMap fun s => [.text (lit "\n        "), trackNode s]) ++ [.text (lit "\n    ")]

/-- The playlist as an element. -/
def playlistNode (name description : Bytes) (songs : List HdfSong) : Xml.Node :=
  .element (lit "playlist") (lit " version=\"1\" xmlns=\"http://xspf.org/ns/0/\"") [
    .text (lit "\n    "), Xml.leaf (lit "title") name,
    .text (lit "\n    "), Xml.leaf (lit "info") description,
    .text (lit "\n    "), .element (lit "trackList") [] (trackNodes songs),
    .text (lit "\n")]

/-- The document is that of the playlist: it reads as the declaration and the element. -/
def Shows (content name description : Bytes) (songs : List HdfSong) : Prop :=
  Xml.tokens content = some ([.markup (lit "?xml version=\"1.0\" encoding=\"UTF-8\"?"),
    .text (lit "\n")] ++ (playlistNode name description songs).tokens ++ [.text (lit "\n")])

/-! ## Strings that come through -/

/-- The string reads as it is stored: nothing in it is escaped, cut off or read as markup. -/
structure Kept (s : Bytes) : Prop where
  plain : Xml.Plain s
  quote : 34 ∉ s
  line : 10 ∉ s
  stripped : strip s = s

theorem escapeQuotes_of_not_mem {s : Bytes} (h : 34 ∉ s) : escapeQuotes s = s := by
  unfold escapeQuotes replaceAll
  induction s with
  | nil => rfl
  | cons b s ih =>
    simp only [List.mem_cons, not_or] at h
    rw [List.flatMap_cons, if_neg (Ne.symm h.1), ih h.2, List.singleton_append]

theorem takeWhile_line {s : Bytes} (h : 10 ∉ s) : s.takeWhile (· ≠ 10) = s := by
  refine List.takeWhile_eq_self_iff.mpr fun b hb => ?_
  refine decide_eq_true ?_
  rintro rfl
  exact h hb

theorem weigh_escapeQuotes (w : UInt8 → Int) (s : Bytes) :
    Xml.weigh w (escapeQuotes s) = Xml.weigh w s + s.count 34 * w 92 := by
  unfold escapeQuotes replaceAll
  induction s with
  | nil => simp
  | cons b s ih =>
    rw [List.flatMap_cons, Xml.weigh_append, ih, List.count_cons, Xml.weigh_cons]
    by_cases hb : b = 34
    · subst hb
      simp only [if_pos, Xml.weigh_cons, Xml.weigh_nil, beq_self_eq_true]
      push_cast
      rw [add_mul]
      omega
    · rw [if_neg hb, if_neg (by simpa using hb)]
      simp only [Xml.weigh_cons, Xml.weigh_nil, Nat.add_zero]
      omega

theorem strip_within (t : Bytes) : strip t <:+: t :=
  (List.dropWhile_suffix _).isInfix.trans (List.rdropWhile_prefix _ _).isInfix

theorem hdfValue_within (t : Bytes) : hdfValue t <:+: t :=
  (strip_within _).trans (List.takeWhile_prefix _).isInfix

/-- Only white space is stripped. -/
theorem weigh_strip {w : UInt8 → Int} (hw : ∀ b, isSpace b = true → w b = 0) (t : Bytes) :
    Xml.weigh w (strip t) = Xml.weigh w t := by
  have hdrop : ∀ t : Bytes, Xml.weigh w (t.dropWhile isSpace) = Xml.weigh w t := by
    intro t
    have hzero : Xml.weigh w (t.takeWhile isSpace) = 0 :=
      Xml.weigh_eq_zero fun b hb => hw b (List.mem_takeWhile_imp hb)
    have happ := congrArg (Xml.weigh w) (List.takeWhile_append_dropWhile (p := isSpace) (l := t))
    rw [Xml.weigh_append, hzero, zero_add] at happ
    exact happ
  have hreverse : ∀ t : Bytes, Xml.weigh w t.reverse = Xml.weigh w t := by
    intro t
    simp [Xml.weigh]
  unfold strip
  rw [hdrop, List.rdropWhile, hreverse, hdrop, hreverse]

theorem Kept.hdfValue_eq {s : Bytes} (h : Kept s) : hdfValue (escapeQuotes s) = s := by
  unfold hdfValue
  rw [escapeQuotes_of_not_mem h.quote, takeWhile_line h.line, h.stripped]

theorem markWeight_escape (s : Bytes) :
    Xml.weigh Xml.markWeight (escapeQuotes s) = Xml.weigh Xml.markWeight s := by
  rw [weigh_escapeQuotes, show Xml.markWeight 92 = 0 from rfl, mul_zero, add_zero]

theorem markWeight_hdfValue (s : Bytes) :
    Xml.weigh Xml.markWeight (hdfValue (escapeQuotes s)) ≤ Xml.weigh Xml.markWeight s :=
  calc Xml.weigh Xml.markWeight (hdfValue (escapeQuotes s))
      ≤ Xml.weigh Xml.markWeight (escapeQuotes s) :=
        Xml.weigh_le_of_infix Xml.markWeight_nonneg (hdfValue_within _)
    _ = Xml.weigh Xml.markWeight s := markWeight_escape s

/-- The weight of references alone. -/
def referenceWeight (b : UInt8) : Int := if b = 38 then 2 else 0

/-- The weight of tags and line ends alone. -/
def lineWeight (b : UInt8) : Int := if b = 60 ∨ b = 10 then 1 else 0

theorem markWeight_eq (b : UInt8) : Xml.markWeight b = referenceWeight b + lineWeight b := by
  unfold Xml.markWeight referenceWeight lineWeight
  by_cases h38 : b = 38
  · subst h38
    decide
  · rw [if_neg h38, if_neg h38, zero_add]

/-- What is read as it is stored has no line end: its value is one line, without `<`, and no
reference makes up for what is missing. -/
theorem line_of_reads {s : Bytes} (h : Xml.Reads (hdfValue (escapeQuotes s)) s) : 10 ∉ s := by
  intro hmem
  have hmark := h.scans.weigh_le Xml.markWeight_loses h.scans.not_mem
  have hvalue : Xml.weigh Xml.markWeight (hdfValue (escapeQuotes s)) =
      Xml.weigh referenceWeight (hdfValue (escapeQuotes s)) := by
    refine Xml.weigh_congr fun b hb => ?_
    have h60 : b ≠ 60 := by
      rintro rfl
      exact h.scans.not_mem hb
    have h10 : b ≠ 10 := by
      rintro rfl
      have hline := (strip_within _).subset hb
      simpa using List.mem_takeWhile_imp hline
    rw [markWeight_eq, lineWeight, if_neg (by simp [h60, h10]), add_zero]
  have hreference : Xml.weigh referenceWeight (hdfValue (escapeQuotes s)) ≤
      Xml.weigh referenceWeight s := by
    have hnonneg : ∀ b, 0 ≤ referenceWeight b := fun b => by
      unfold referenceWeight
      split_ifs <;> decide
    have hle := Xml.weigh_le_of_infix hnonneg (hdfValue_within (escapeQuotes s))
    rwa [weigh_escapeQuotes, show referenceWeight 92 = 0 from rfl, mul_zero, add_zero] at hle
  have hsplit : Xml.weigh Xml.markWeight s =
      Xml.weigh referenceWeight s + Xml.weigh lineWeight s := by
    rw [← Xml.weigh_add]
    exact Xml.weigh_congr fun b _ => markWeight_eq b
  have hline : lineWeight 10 ≤ Xml.weigh lineWeight s :=
    Xml.weigh_le_of_mem (fun b => by unfold lineWeight; split_ifs <;> decide) hmem
  have hone : lineWeight 10 = 1 := rfl
  omega

/-- Backslashes count against a text. -/
def backslashWeight (b : UInt8) : Int := if b = 92 then -1 else 0

theorem backslashWeight_nonpos (t : Bytes) : Xml.weigh backslashWeight t ≤ 0 := by
  induction t with
  | nil => simp
  | cons b t ih =>
    have hb : backslashWeight b ≤ 0 := by
      unfold backslashWeight
      split_ifs <;> decide
    rw [Xml.weigh_cons]
    omega

theorem backslashWeight_loses : Xml.Loses backslashWeight 0 := by
  intro name c hname _
  have hzero : Xml.weigh backslashWeight name = 0 := by
    refine Xml.weigh_eq_zero fun b hb => if_neg ?_
    rintro rfl
    exact absurd (hname 92 hb) (by decide)
  have hle := backslashWeight_nonpos c
  have h38 : backslashWeight 38 = 0 := rfl
  have h59 : backslashWeight 59 = 0 := rfl
  omega

/-- The strings that come through are those that read as they are stored. -/
theorem kept_iff {s : Bytes} : Xml.Reads (hdfValue (escapeQuotes s)) s ↔ Kept s := by
  constructor
  · intro h
    have hline := line_of_reads h
    have hescaped : 10 ∉ escapeQuotes s := by
      intro hmem
      obtain ⟨b, hb, hc⟩ := List.mem_flatMap.mp hmem
      split_ifs at hc with h34
      · simp at hc
      · rw [← List.mem_singleton.mp hc] at hb
        exact hline hb
    unfold hdfValue at h
    rw [takeWhile_line hescaped] at h
    -- A quote would leave a backslash behind.
    have hquote : 34 ∉ s := by
      have hle := h.scans.weigh_le backslashWeight_loses h.scans.not_mem
      have hspace : ∀ b, isSpace b = true → backslashWeight b = 0 := by
        intro b hb
        refine if_neg ?_
        rintro rfl
        exact absurd hb (by decide)
      rw [weigh_strip hspace, weigh_escapeQuotes, show backslashWeight 92 = -1 from rfl] at hle
      exact List.count_eq_zero.mp (by omega)
    rw [escapeQuotes_of_not_mem hquote] at h
    have h38 : 38 ∉ strip s := by
      have hlength := h.scans.weigh_le Xml.lengthWeight_loses h.scans.not_mem
      have hstrip := Xml.weigh_le_of_infix Xml.lengthWeight_nonneg (strip_within s)
      exact List.count_eq_zero.mp (by omega)
    obtain ⟨hstrip, hplain⟩ := h.of_no_reference h38
    exact ⟨by rw [hstrip]; exact hplain, hquote, hline, hstrip.symm⟩
  · intro h
    rw [h.hdfValue_eq]
    exact h.plain.reads

/-! ## The document of the values -/

/-- What the template puts in front of the first track, or behind the last one. -/
def next : List HdfSong → Bytes
  | [] => lit "\n    </trackList>\n</playlist>"
  | _ :: _ => lit "\n        <track>\n            <location>"

/-- The places of the document for the values of songs. -/
def songGaps : List HdfSong → List Xml.Gap
  | [] => []
  | s :: songs => [
    ⟨hdfValue (written s).url, s.url, lit "</location>\n            <album>"⟩,
    ⟨hdfValue (written s).album, s.album, lit "</album>\n            <creator>"⟩,
    ⟨hdfValue (written s).artist, s.artist, lit "</creator>\n            <title>"⟩,
    ⟨hdfValue (written s).title, s.title, lit "</title>\n            <duration>"⟩,
    ⟨hdfValue (written s).length, s.length, lit "</duration>\n            <image>"⟩,
    ⟨hdfValue (written s).image, s.image, lit "</image>\n        </track>" ++ next songs⟩] ++
      songGaps songs

/-- The places of the document for a playlist. -/
def gaps (name description : Bytes) (songs : List HdfSong) : List Xml.Gap := [
  ⟨name, name, lit "</title>\n    <info>"⟩,
  ⟨description, description, lit "</info>\n    <trackList>" ++ next songs⟩] ++ songGaps songs

/-- What stands in front of the first place. -/
def lead : Bytes :=
  lit "<?xml version=\"1.0\" encoding=\"UTF-8\"?>\n<playlist version=\"1\" " ++
    lit "xmlns=\"http://xspf.org/ns/0/\">\n    <title>"

theorem tracks_text (songs : List HdfSong) :
    lit "\n" ++ ((songs.map fun s => (written s).map hdfValue).flatMap track ++
        lit "    </trackList>\n</playlist>\n") =
      next songs ++ ((songGaps songs).flatMap (fun g => g.raw ++ g.after) ++ lit "\n") := by
  induction songs with
  | nil => rfl
  | cons s songs ih =>
    have hopen : next (s :: songs) =
      lit "\n" ++ lit "        <track>\n            <location>" := rfl
    have hclose : lit "</image>\n        </track>\n" =
      lit "</image>\n        </track>" ++ lit "\n" := rfl
    simp only [List.map_cons, List.flatMap_cons, songGaps, List.cons_append, List.nil_append,
      List.append_assoc, ← ih, hopen]
    simp only [track, HdfSong.map, hclose, List.append_assoc]

/-- The document as a text with places. -/
theorem page_eq (name description : Bytes) (songs : List HdfSong) :
    page name description (songs.map fun s => (written s).map hdfValue) =
      lead ++ ((gaps name description songs).flatMap (fun g => g.raw ++ g.after) ++ lit "\n") := by
  have hlist : lit "</info>\n    <trackList>\n" = lit "</info>\n    <trackList>" ++ lit "\n" := rfl
  simp only [page, lead, gaps, List.cons_append, List.nil_append, List.flatMap_cons,
    List.append_assoc, ← tracks_text, hlist]

theorem isFixed_next (songs : List HdfSong) :
    Xml.isFixed (lit "</info>\n    <trackList>" ++ next songs) = true ∧
      Xml.isFixed (lit "</image>\n        </track>" ++ next songs) = true := by
  cases songs with
  | nil => decide +kernel
  | cons s songs =>
    simp only [next]
    decide +kernel

/-- The tokens of what stands in front of the first track, or behind the last one. -/
def nextTokens : List HdfSong → List Xml.Token
  | [] => [.text (lit "\n    "), .markup (lit "/trackList"), .text (lit "\n"),
    .markup (lit "/playlist")]
  | _ :: _ => [.text (lit "\n        "), .markup (lit "track"), .text (lit "\n            "),
    .markup (lit "location")]

theorem fixedTokens_next (songs : List HdfSong) :
    Xml.fixedTokens (lit "</info>\n    <trackList>" ++ next songs) =
      [.markup (lit "/info"), .text (lit "\n    "), .markup (lit "trackList")] ++
        nextTokens songs ∧
    Xml.fixedTokens (lit "</image>\n        </track>" ++ next songs) =
      [.markup (lit "/image"), .text (lit "\n        "), .markup (lit "/track")] ++
        nextTokens songs := by
  cases songs with
  | nil => decide +kernel
  | cons s songs =>
    simp only [next, nextTokens]
    decide +kernel

theorem tracks_tokens (songs : List HdfSong) :
    nextTokens songs ++ ((songGaps songs).flatMap fun g =>
        Xml.run g.meant ++ Xml.fixedTokens g.after) =
      Xml.contentTokens (trackNodes songs) ++ [.markup (lit "/trackList"), .text (lit "\n"),
        .markup (lit "/playlist")] := by
  induction songs with
  | nil => decide +kernel
  | cons s songs ih =>
    have h1 : Xml.fixedTokens (lit "</location>\n            <album>") =
      [.markup (lit "/location"), .text (lit "\n            "), .markup (lit "album")] := by
      decide +kernel
    have h2 : Xml.fixedTokens (lit "</album>\n            <creator>") =
      [.markup (lit "/album"), .text (lit "\n            "), .markup (lit "creator")] := by
      decide +kernel
    have h3 : Xml.fixedTokens (lit "</creator>\n            <title>") =
      [.markup (lit "/creator"), .text (lit "\n            "), .markup (lit "title")] := by
      decide +kernel
    have h4 : Xml.fixedTokens (lit "</title>\n            <duration>") =
      [.markup (lit "/title"), .text (lit "\n            "), .markup (lit "duration")] := by
      decide +kernel
    have h5 : Xml.fixedTokens (lit "</duration>\n            <image>") =
      [.markup (lit "/duration"), .text (lit "\n            "), .markup (lit "image")] := by
      decide +kernel
    have h6 : Xml.run (lit "\n            ") = [.text (lit "\n            ")] := rfl
    have h7 : Xml.run (lit "\n        ") = [.text (lit "\n        ")] := rfl
    simp only [songGaps, List.cons_append, List.nil_append, List.flatMap_cons, h1, h2, h3, h4, h5,
      (fixedTokens_next songs).2, List.append_assoc, ih]
    simp only [nextTokens, trackNodes, trackNode, Xml.leaf, List.flatMap_cons, List.cons_append,
      List.nil_append, Xml.contentTokens, Xml.Node.tokens, List.append_assoc, List.append_nil,
      h6, h7]
    rfl

/-- The tokens of the document with its places filled as they are meant. -/
theorem playlist_tokens (name description : Bytes) (songs : List HdfSong) :
    Xml.fixedTokens lead ++ (((gaps name description songs).flatMap fun g =>
        Xml.run g.meant ++ Xml.fixedTokens g.after) ++ [.text (lit "\n")]) =
      [.markup (lit "?xml version=\"1.0\" encoding=\"UTF-8\"?"), .text (lit "\n")] ++
        (playlistNode name description songs).tokens ++ [.text (lit "\n")] := by
  have h1 : Xml.fixedTokens lead =
    [.markup (lit "?xml version=\"1.0\" encoding=\"UTF-8\"?"), .text (lit "\n"),
      .markup (lit "playlist version=\"1\" xmlns=\"http://xspf.org/ns/0/\""),
      .text (lit "\n    "), .markup (lit "title")] := by
    decide +kernel
  have h2 : Xml.fixedTokens (lit "</title>\n    <info>") =
    [.markup (lit "/title"), .text (lit "\n    "), .markup (lit "info")] := by
    decide +kernel
  have h3 : Xml.run (lit "\n    ") = [.text (lit "\n    ")] := rfl
  have h4 : Xml.run (lit "\n") = [.text (lit "\n")] := rfl
  have htracks := tracks_tokens songs
  simp only [gaps, List.cons_append, List.nil_append, List.flatMap_cons, h1, h2,
    (fixedTokens_next songs).1, List.append_assoc]
  rw [← List.append_assoc (nextTokens songs), htracks]
  simp only [playlistNode, Xml.leaf, Xml.contentTokens, Xml.Node.tokens, List.append_assoc,
    List.append_nil, List.cons_append, List.nil_append, h3, h4]
  rfl

theorem markWeight_value (t : Bytes) :
    Xml.weigh Xml.markWeight (hdfValue t) ≤ Xml.weigh Xml.markWeight t :=
  Xml.weigh_le_of_infix Xml.markWeight_nonneg (hdfValue_within t)

theorem songGaps_fit (songs : List HdfSong) : ∀ g ∈ songGaps songs, Xml.isFixed g.after = true ∧
    Xml.weigh Xml.markWeight g.raw ≤ Xml.weigh Xml.markWeight g.meant := by
  induction songs with
  | nil => exact fun g hg => absurd hg List.not_mem_nil
  | cons s songs ih =>
    simp only [songGaps, List.cons_append, List.nil_append, List.forall_mem_cons]
    exact ⟨⟨by decide +kernel, markWeight_value _⟩, ⟨by decide +kernel, markWeight_hdfValue _⟩,
      ⟨by decide +kernel, markWeight_hdfValue _⟩, ⟨by decide +kernel, markWeight_hdfValue _⟩,
      ⟨by decide +kernel, markWeight_value _⟩, ⟨(isFixed_next songs).2, markWeight_value _⟩, ih⟩

/-- When the document of values is that of the playlist. -/
theorem page_shows_iff {name description : Bytes} {songs : List HdfSong} :
    Shows (page name description (songs.map fun s => (written s).map hdfValue)) name description
        songs ↔
      ∀ g ∈ gaps name description songs, Xml.Reads g.raw g.meant := by
  have hlast : Xml.reader.tokensFrom Xml.start (lit "\n") = some [.text (lit "\n")] := by decide
  unfold Shows
  rw [page_eq, ← playlist_tokens]
  refine Xml.filled_iff (by decide +kernel) (by decide) hlast ?_
  simp only [gaps, List.cons_append, List.nil_append, List.forall_mem_cons]
  exact ⟨⟨by decide +kernel, le_rfl⟩, ⟨(isFixed_next songs).1, le_rfl⟩, songGaps_fit songs⟩

theorem songGaps_reads {songs : List HdfSong} :
    (∀ g ∈ songGaps songs, Xml.Reads g.raw g.meant) ↔ ∀ s ∈ songs,
      Xml.Reads (hdfValue s.url) s.url ∧ Kept s.album ∧ Kept s.artist ∧ Kept s.title ∧
        Xml.Reads (hdfValue s.length) s.length ∧ Xml.Reads (hdfValue s.image) s.image := by
  induction songs with
  | nil => simp [songGaps]
  | cons s songs ih =>
    simp only [songGaps, List.cons_append, List.nil_append, List.forall_mem_cons, ih, written,
      kept_iff]
    tauto

/-! ## Links and lengths -/

/-- A byte of a link to a song or of a number. -/
def isSafe (b : UInt8) : Bool := isAlpha b || isDigit b || b == 47 || b == 45

theorem kept_of_safe {t : Bytes} (h : ∀ b ∈ t, isSafe b = true) : Kept t := by
  have hbyte : ∀ b, isSafe b = true → b < 128 ∧ Xml.isChar b = true ∧ b ≠ 38 ∧ b ≠ 60 ∧ b ≠ 34 ∧ b ≠ 10 ∧
      b ≠ 93 ∧ isSpace b = false := by
    decide +kernel
  have hspace : ∀ b ∈ t, isSpace b = false := fun b hb => (hbyte b (h b hb)).2.2.2.2.2.2.2
  have hascii : t.all (· < 128) = true :=
    List.all_eq_true.mpr fun b hb => decide_eq_true (hbyte b (h b hb)).1
  refine ⟨⟨Xml.encoded_ascii hascii, fun b hb => ?_, fun hin => ?_⟩, fun hmem => ?_,
    fun hmem => ?_, ?_⟩
  · obtain ⟨-, h₁, h₂, h₃, -⟩ := hbyte b (h b hb)
    exact ⟨h₁, h₂, h₃⟩
  · exact (hbyte 93 (h 93 (hin.subset (by simp)))).2.2.2.2.2.2.1 rfl
  · exact (hbyte 34 (h 34 hmem)).2.2.2.2.1 rfl
  · exact (hbyte 10 (h 10 hmem)).2.2.2.2.2.1 rfl
  · have hdrop : ∀ u : Bytes, (∀ b ∈ u, isSpace b = false) → u.dropWhile isSpace = u := by
      intro u hu
      cases u with
      | nil => rfl
      | cons b u => rw [List.dropWhile_cons, if_neg (by simp [hu b (by simp)])]
    unfold strip
    rw [List.rdropWhile, hdrop t.reverse (by simpa using hspace), List.reverse_reverse,
      hdrop t hspace]

theorem isSafe_showInt (n : Int) : ∀ b ∈ showInt n, isSafe b = true := by
  intro b hb
  have hdigit : ∀ k, b ∈ decimal k → isSafe b = true := fun k hk => by
    simp [isSafe, isDigit_of_mem_decimal hk]
  unfold showInt at hb
  split at hb
  · rcases List.mem_cons.mp hb with rfl | hb
    · rfl
    · exact hdigit _ hb
  · exact hdigit _ hb

theorem Kept.value_reads {t : Bytes} (h : Kept t) : Xml.Reads (hdfValue t) t := by
  have hvalue := h.hdfValue_eq
  rw [escapeQuotes_of_not_mem h.quote] at hvalue
  rw [hvalue]
  exact h.plain.reads

/-- The bytes of a link to a song. -/
theorem isSafe_link {path ticket : Bytes} (hpath : ∀ b ∈ path, isSafe b = true)
    (hticket : ∀ b ∈ ticket, isAlpha b = true) (id : Int) :
    ∀ b ∈ path ++ ticket ++ lit "/" ++ showInt id, isSafe b = true := by
  intro b hb
  simp only [List.mem_append] at hb
  rcases hb with ((hb | hb) | hb) | hb
  · exact hpath b hb
  · simp [isSafe, hticket b hb]
  · rw [List.mem_singleton.mp hb]
    rfl
  · exact isSafe_showInt _ b hb

/-- Links and lengths come through. -/
theorem songValues_kept {ticket : Bytes} (hticket : ∀ b ∈ ticket, isAlpha b = true)
    (s : NamedSong) :
    Kept (songValues ticket s).url ∧ Kept (songValues ticket s).length ∧
      Kept (songValues ticket s).image :=
  ⟨kept_of_safe (isSafe_link (by decide +kernel) hticket _), kept_of_safe (isSafe_showInt _),
    kept_of_safe (isSafe_link (by decide +kernel) hticket _)⟩

/-- When the document is that of the playlist. -/
theorem playlist_shows_iff {name description ticket : Bytes}
    (hticket : ∀ b ∈ ticket, isAlpha b = true) {songs : List NamedSong} :
    Shows (page name description
        ((songs.map (songValues ticket)).map fun s => (written s).map hdfValue)) name description
        (songs.map (songValues ticket)) ↔
      Xml.Plain name ∧ Xml.Plain description ∧
        ∀ s ∈ songs, Kept s.song.title ∧ Kept s.artist ∧ Kept s.album := by
  rw [page_shows_iff]
  simp only [gaps, List.cons_append, List.nil_append, List.forall_mem_cons, songGaps_reads,
    Xml.reads_self_iff, List.forall_mem_map]
  refine and_congr_right fun _ => and_congr_right fun _ => forall₂_congr fun s _ => ?_
  obtain ⟨hurl, hlength, himage⟩ := songValues_kept hticket s
  exact ⟨fun h => ⟨h.2.2.2.1, h.2.2.1, h.2.1⟩, fun h => ⟨hurl.value_reads, h.2.2, h.2.1, h.1,
    hlength.value_reads, himage.value_reads⟩⟩

/-! ## The handler -/

variable [Affinity]

section

variable {env : Env} {req : Request} {w : World}

theorem putSongOf_emits (env : Env) (ticket : Bytes) (num : Nat) (s : Spinny.Song)
    (hartist : s.artistName = w.db.artistName s.artistId)
    (halbum : s.albumName = w.db.albumName s.albumId) :
    Emits w (putSongOf env ticket num s) fun _ u =>
      ∃ n, Named w.db s n ∧ u = (written (songValues ticket n)).text num := by
  have hchain := emits_putChain (w := w) env [
    pure (lit "  "), pure (decimal num), pure (lit " \x7b"), pure (lit "\n     url="),
    pure (lit "/song/dl/"), pure ticket, pure (lit "/"), pure (showInt s.dbId),
    pure (lit "\n     album="), return escapeQuotes (← s.nameOfAlbum),
    pure (lit "\n     artist="), return escapeQuotes (← s.nameOfArtist),
    pure (lit "\n     title="), pure (escapeQuotes s.title),
    pure (lit "\n     length="), pure (milliseconds s),
    pure (lit "\n     image="), pure (lit "/song/img/"), pure ticket, pure (lit "/"),
    pure (showInt s.dbId), pure (lit "\n    \x7d\n")] (by
      simp only [List.forall_mem_cons, Reads.pure, true_and]
      exact ⟨(reads_nameOfAlbum s).bind fun _ => Reads.pure _,
        (reads_nameOfArtist s).bind fun _ => Reads.pure _, fun _ h => nomatch h⟩)
  refine hchain.imp ?_
  rintro _ _ ⟨vs, hvs, rfl⟩
  simp only [List.forall₂_cons_left_iff, List.forall₂_nil_left_iff, outcome_pure,
    Except.ok.injEq, existsAndEq, true_and, and_true] at hvs
  obtain ⟨u, v, ⟨hu, hv⟩, rfl⟩ := hvs
  obtain ⟨album, halbum', hq⟩ := bind_eq_ok.mp hu
  obtain rfl := Except.ok.inj hq
  obtain ⟨artist, hartist', hq⟩ := bind_eq_ok.mp hv
  obtain rfl := Except.ok.inj hq
  refine ⟨⟨s, artist, album⟩,
    ⟨rfl, nameOfArtist_ok hartist hartist', nameOfAlbum_ok halbum halbum'⟩, ?_⟩
  simp only [HdfSong.text, written, songValues, List.flatten_cons, List.flatten_nil,
    List.append_assoc, List.append_nil]

/-- The ticket of the user of a request. -/
def ticketOf (req : Request) : Bytes := (req.user.map User.ticket).getD []

/-- The text of the songs. -/
theorem songs_emit {rows : List Spinny.Song} (hnames : ∀ s ∈ rows,
      s.artistName = w.db.artistName s.artistId ∧ s.albumName = w.db.albumName s.albumId) :
    Emits w (rows.zipIdx.forM fun s => putSong env req (s.2 + 1) s.1) fun _ u =>
      ∃ l, List.Forall₂ (Named w.db) rows l ∧ u = (l.zipIdx.flatMap fun s =>
        (written (songValues (ticketOf req) s.1)).text (s.2 + 1)) := by
  have hsong : ∀ s ∈ rows, ∀ k, Emits w (putSong env req (k + 1) s) fun _ u =>
      ∃ n, Named w.db s n ∧ u = (written (songValues (ticketOf req) n)).text (k + 1) := by
    intro s hs k
    unfold putSong
    cases huser : req.user with
    | none => exact fun _ _ h => nomatch h
    | some user =>
      have hticket : ticketOf req = user.ticket := by
        rw [ticketOf, huser]
        rfl
      rw [hticket]
      exact (putSongOf_emits env user.ticket (k + 1) s (hnames s hs).1 (hnames s hs).2).run
  exact emits_forM_zipIdx hsong 0

/-- The playlist of a request and its songs. -/
structure Listed (env : Env) (req : Request) (w : World) (p : PlayListFields)
    (l : List NamedSong) : Prop where
  playlist : ∃ id pl, toId req.u2 = some id ∧ outcome (PlayList.load id) w = .ok pl ∧
    outcome pl.fields w = .ok p ∧ ∃ rs rows, outcome (pl.songs env 0 0) w = .ok rs ∧
      rs.rows w.db = some rows ∧ List.Forall₂ (Named w.db) rows l

/-- The reply in which the songs are written. -/
def replyFor (p : PlayListFields) : Reply :=
  { Reply.fresh.setBasicHeaders (lit "txt") with
    template := lit "xspf.html"
    hdf := hdfOf p.name p.description }

/-- The part of the handler that sets the values for the template. -/
def setValues (pl : PlayList) : Run Unit := do
  modifyRep fun rep => rep.setTemplate (lit "xspf.html")
  let p ← pl.fields
  setHdfValue (lit "name") (.text p.name)
  setHdfValue (lit "description") (.text p.description)

/-- The part of the handler that writes the songs. -/
def putSongs (env : Env) (req : Request) (pl : PlayList) : Run RequestStatus := do
  put (lit "Songs \x7b\n")
  let songs ← (← pl.songs env 0 0).begin
  songs.zipIdx.forM fun s => putSong env req (s.2 + 1) s.1
  put (lit "\x7d\n")
  return .stop

theorem putPlayList_eq : putPlayList env req = (do
    modifyRep fun rep => rep.setBasicHeaders (lit "txt")
    let pl ← PlayList.load (← cast (toId req.u2))
    setValues pl
    putSongs env req pl) := by
  unfold putPlayList setValues putSongs
  simp only [bind_assoc]

/-- A change of the reply. -/
theorem modifyRep_run (f : Reply → Reply) (w : World) :
    Returns (modifyRep f).run w () { w with rep := f w.rep } := ⟨rfl, rfl⟩

/-- A value that is set for the template. -/
theorem setHdfValue_run (key : Bytes) (value : HdfValue) (h : w.rep.template ≠ []) :
    Returns (setHdfValue key value).run w ()
      { w with rep := { w.rep with hdf := w.rep.hdf ++ [(key, value)] } } where
  outcome := outcome_run_ok (by rw [outcome_setHdfValue, if_neg h])
  after := by rw [after_run, after_setHdfValue, if_neg h]

omit [Affinity] in
theorem template_setTemplate (rep : Reply) (tmpl : Bytes) :
    (rep.setTemplate tmpl).template = tmpl := by
  unfold Reply.setTemplate
  split <;> rfl

theorem setValues_returns {pl : PlayList} {p : PlayListFields}
    (hrep : w.rep = Reply.fresh.setBasicHeaders (lit "txt"))
    (hp : ∀ rep, Returns pl.fields { w with rep := rep } p { w with rep := rep }) :
    Returns (setValues pl) w () { w with rep := replyFor p } := by
  have htemplate := modifyRep_run (fun rep => rep.setTemplate (lit "xspf.html")) w
  rw [hrep] at htemplate
  have hfields : ∀ rep, Returns pl.fields.run { w with rep := rep } p { w with rep := rep } :=
    fun rep => ⟨outcome_run_ok (hp rep).outcome, (hp rep).after⟩
  refine htemplate.bind ((hfields _).bind ((setHdfValue_run _ _ ?_).bind
    (setHdfValue_run _ _ ?_)))
  · dsimp only
    rw [template_setTemplate]
    decide
  · dsimp only
    rw [template_setTemplate]
    decide

theorem putSongs_emits (pl : PlayList) : Emits w (putSongs env req pl) fun _ u =>
    ∃ rs rows l, outcome (pl.songs env 0 0) w = .ok rs ∧ rs.rows w.db = some rows ∧
      List.Forall₂ (Named w.db) rows l ∧
        u = hdfText (l.map fun s => written (songValues (ticketOf req) s)) := by
  unfold putSongs
  simp only [liftM_act]
  refine Emits.bind (Emits.run (Emits.put (Q := fun _ u => u = lit "Songs \x7b\n") rfl)) ?_
  rintro _ _ rfl
  refine Reads.then (Reads.run (reads_songs _ _ _ _)) fun rs hrs => ?_
  refine Reads.then (Reads.run (reads_begin rs)) fun rows hrows => ?_
  have hlisted : rs.rows w.db = some rows := by
    have hrows := ok_of_run hrows
    rw [outcome_begin] at hrows
    cases h : rs.rows w.db with
    | none => simp [h] at hrows
    | some rows' =>
      simp only [h, Except.ok.injEq] at hrows
      rw [hrows]
  have hstat := PlayList.statement_of_songs (ok_of_run hrs)
  refine (songs_emit (songsStatement_named hstat hlisted)).bind ?_
  rintro _ _ ⟨l, hl, rfl⟩
  refine (Emits.run (Emits.put (Q := fun _ u => u = lit "\x7d\n") rfl)).bind ?_
  rintro _ _ rfl
  refine Emits.pure ⟨rs, rows, l, ok_of_run hrs, hlisted, hl, ?_⟩
  rw [hdfText, List.zipIdx_map, List.flatMap_map]
  simp only [List.append_assoc, List.append_nil]
  rfl

/-- What the handler has written when it stops. -/
theorem handle_written (hrep : w.rep = .fresh) (h1 : req.u1 = lit "xspf")
    (hok : outcome (handle env req) w = .ok .stop) :
    ∃ p l, Listed env req w p l ∧ (after (handle env req) w).rep = { replyFor p with
      content := hdfText (l.map fun s => written (songValues (ticketOf req) s)) } := by
  unfold handle at hok ⊢
  rw [if_neg (not_not.mpr h1), putPlayList_eq] at hok ⊢
  simp only [liftM_act] at hok ⊢
  have hhead := modifyRep_run (fun rep => rep.setBasicHeaders (lit "txt")) w
  rw [outcome_bind_ok hhead.outcome, hhead.after] at hok
  rw [after_bind_ok hhead.outcome, hhead.after]
  obtain ⟨id, hid, hok, hafter⟩ := Reads.step (Reads.run (Reads.cast _)) hok
  rw [hafter]
  obtain ⟨pl, hload, hok, hafter⟩ := Reads.step (Reads.run (reads_load id)) hok
  rw [hafter]
  obtain ⟨p, hp⟩ : ∃ p, ∀ rep, Returns pl.fields { w with rep := rep } p { w with rep := rep } := by
    cases pl with
    | stored p => exact ⟨p, fun _ => ⟨rfl, rfl⟩⟩
    | complete => exact ⟨w.complete.fields, fun _ => ⟨rfl, rfl⟩⟩
  have hset := setValues_returns (w := { w with rep := w.rep.setBasicHeaders (lit "txt") })
    (by rw [hrep]) hp
  rw [outcome_bind_ok hset.outcome, hset.after] at hok
  rw [after_bind_ok hset.outcome, hset.after]
  have hemits := @putSongs_emits _ env req { w with rep := replyFor p } pl
  rw [← World.wrote_nil { w with rep := replyFor p }] at hok ⊢
  obtain ⟨u, ⟨rs, rows, l, hrs, hrows, hl, rfl⟩, hafter⟩ := hemits [] _ hok
  rw [hafter]
  refine ⟨p, l, ⟨⟨id, pl, ?_, ?_, (hp w.rep).outcome, rs, rows, ?_, hrows, hl⟩⟩, rfl⟩
  · have hid := ok_of_run hid
    cases hcast : toId req.u2 with
    | none => simp [hcast] at hid
    | some n =>
      rw [hcast] at hid
      exact congrArg some (Except.ok.inj hid)
  · have hload := ok_of_run hload
    rw [PlayList.outcome_load] at hload ⊢
    exact hload
  · rw [PlayList.outcome_songs] at hrs ⊢
    exact hrs

/-! ## The document -/

omit [Affinity] in
/-- Escaping puts in backslashes only. -/
theorem mem_escapeQuotes {c : UInt8} {t : Bytes} (h : c ∈ escapeQuotes t) : c ∈ t ∨ c = 92 := by
  obtain ⟨b, hb, hc⟩ := List.mem_flatMap.mp h
  split_ifs at hc with hquote
  · rcases List.mem_pair.mp hc with rfl | rfl
    · exact .inr rfl
    · exact .inl (hquote ▸ hb)
  · exact .inl (List.mem_singleton.mp hc ▸ hb)

omit [Affinity] in
/-- A byte that is in none of the strings of a song is in none of its values. -/
theorem not_mem_values {ticket : Bytes} (hticket : ∀ b ∈ ticket, isAlpha b = true) {s : NamedSong}
    {c : UInt8} (hsafe : isSafe c = false) (hne : c ≠ 92) (htitle : c ∉ s.song.title)
    (hartist : c ∉ s.artist) (halbum : c ∉ s.album) :
    ∀ v ∈ (written (songValues ticket s)).values, c ∉ v := by
  have hlink : ∀ path : Bytes, (∀ b ∈ path, isSafe b = true) →
      c ∉ path ++ ticket ++ lit "/" ++ showInt s.song.dbId := by
    intro path hpath hc
    rw [isSafe_link hpath hticket _ c hc] at hsafe
    cases hsafe
  have hescaped : ∀ t : Bytes, c ∉ t → c ∉ escapeQuotes t := fun t ht hc =>
    (mem_escapeQuotes hc).elim ht hne
  simp only [HdfSong.values, written, songValues, List.forall_mem_cons]
  refine ⟨hlink _ (by decide +kernel), hescaped _ halbum, hescaped _ hartist, hescaped _ htitle,
    fun hc => ?_, hlink _ (by decide +kernel), fun _ h => nomatch h⟩
  rw [isSafe_showInt _ c hc] at hsafe
  cases hsafe

theorem zero_not_mem (t : Text) : 0 ∉ t.val := by
  have := t.nulFree_val
  simpa [nulFree] using this

/-- The titles in the rows of a listing are those of rows of songs. -/
theorem title_of_rows {pl : PlayList} {c : CompletePlayList} {rs : ResultSet Spinny.Song}
    {db : Database} {rows : List Spinny.Song} (hrs : pl.songsStatement env 0 0 c = some rs)
    (hrows : rs.rows db = some rows) : ∀ s ∈ rows, ∃ t : Text, s.title = t.val := by
  intro s hs
  cases pl with
  | stored p =>
    obtain ⟨order, -, rfl⟩ := Option.map_eq_some_iff.mp hrs
    obtain ⟨joined, -, rfl⟩ := Option.map_eq_some_iff.mp hrows
    obtain ⟨j, -, rfl⟩ := List.mem_map.mp hs
    exact ⟨j.song.title, rfl⟩
  | complete =>
    obtain ⟨order, -, rfl⟩ := Option.map_eq_some_iff.mp hrs
    obtain ⟨songs, -, rfl⟩ := Option.map_eq_some_iff.mp hrows
    obtain ⟨r, -, rfl⟩ := List.mem_map.mp hs
    exact ⟨r.2.title, rfl⟩

/-- The values of the songs hold no NUL. -/
theorem Listed.nulFree_values {p : PlayListFields} {l : List NamedSong}
    (h : Listed env req w p l) (hticket : ∀ b ∈ ticketOf req, isAlpha b = true) :
    ∀ s ∈ l, ∀ v ∈ (written (songValues (ticketOf req) s)).values, nulFree v = true := by
  obtain ⟨id, pl, -, -, -, rs, rows, hrs, hrows, hnamed⟩ := h.playlist
  have htitle := title_of_rows (PlayList.statement_of_songs hrs) hrows
  have hfree : ∀ n ∈ l, 0 ∉ n.song.title ∧ 0 ∉ n.artist ∧ 0 ∉ n.album := by
    clear hrows h
    induction hnamed with
    | nil => exact fun _ h => nomatch h
    | @cons s n rows l hsn _ ih =>
      intro m hm
      rcases List.mem_cons.mp hm with rfl | hm
      · obtain ⟨t, ht⟩ := htitle s List.mem_cons_self
        obtain ⟨artist, -, hartist⟩ := hsn.artist
        obtain ⟨album, -, halbum⟩ := hsn.album
        rw [hsn.song, ht, hartist, halbum]
        exact ⟨zero_not_mem t, zero_not_mem _, zero_not_mem _⟩
      · exact ih (fun s hs => htitle s (List.mem_cons_of_mem _ hs)) m hm
  intro n hn v hv
  obtain ⟨h1, h2, h3⟩ := hfree n hn
  have hzero := not_mem_values hticket rfl (by decide) h1 h2 h3 v hv
  simpa [nulFree] using hzero

/-- The name and the description hold no NUL. -/
theorem Listed.nulFree_fields {p : PlayListFields} {l : List NamedSong}
    (h : Listed env req w p l) (hname : nulFree w.complete.name = true)
    (hdescription : nulFree w.complete.description = true) :
    nulFree p.name = true ∧ nulFree p.description = true := by
  obtain ⟨id, pl, -, hload, hp, -⟩ := h.playlist
  rcases PlayList.of_load_ok hload with ⟨-, rfl⟩ | ⟨-, row, -, rfl⟩
  · obtain rfl := Except.ok.inj hp
    exact ⟨hname, hdescription⟩
  · obtain rfl := Except.ok.inj hp
    exact ⟨row.name.nulFree_val, row.description.nulFree_val⟩

omit [Affinity] in
/-- Strings that come through leave one line for each value. -/
theorem line_of_kept {ticket : Bytes} (hticket : ∀ b ∈ ticket, isAlpha b = true) {s : NamedSong}
    (hs : Kept s.song.title ∧ Kept s.artist ∧ Kept s.album) :
    ∀ v ∈ (written (songValues ticket s)).values, 10 ∉ v :=
  not_mem_values hticket rfl (by decide) hs.1.line hs.2.1.line hs.2.2.line

omit [Affinity] in
/-- The page of an error is not that of a playlist. -/
theorem stock_not_shown {name description : Bytes} {songs : List HdfSong} :
    ¬Shows StatusType.internalServerError.stock name description songs := by
  intro h
  have hhead : (Xml.tokens StatusType.internalServerError.stock).map List.head? =
      some (some (.markup (lit "html"))) := by
    decide +kernel
  rw [show Xml.tokens StatusType.internalServerError.stock = _ from h] at hhead
  simp [lit] at hhead

end

end Handlers.Xspf

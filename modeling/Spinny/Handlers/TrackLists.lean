import Spinny.Handlers.Tracks

/-!
# The document of a playlist

* `Renders`: what is relied on of ClearSilver.
* `reader`: a function that reads the texts that `Xspf` writes, line by line.
* `tracks_iff`: when the document is that of the playlist.
-/

namespace Handlers.Xspf

open Bytes Boost Spinny Sqlite Ews Proc

/-! ## What is relied on of ClearSilver -/

/-- The bytes of which each line of HDF that says something has one. -/
def isHdfMark (b : UInt8) : Bool :=
  b == 61 || b == 58 || b == 123 || b == 125 || b == 60 || b == 91 || b == 35

/-- No line after the first is one of HDF: `_hdf_read_string` skips it if it is blank, and else
gives an error. -/
def Unread (v : Bytes) : Prop := ∀ b ∈ v.dropWhile (· ≠ 10), isHdfMark b = false

theorem unread_of_line {v : Bytes} (h : 10 ∉ v) : Unread v := by
  intro b hb
  have hline : v.dropWhile (· ≠ 10) = [] := by
    refine List.dropWhile_eq_nil_iff.mpr fun c hc => decide_eq_true ?_
    rintro rfl
    exact h hc
  rw [hline] at hb
  cases hb

/-- ClearSilver reads a value up to the end of its line, without the white space around it, and puts
values into the document as they are. -/
structure Renders (render : Renderer) : Prop where
  /-- Values of one line are read. -/
  reads : ∀ {name description songs},
    nulFree name = true → nulFree description = true →
    (∀ s ∈ songs, ∀ v ∈ HdfSong.values s, nulFree v = true ∧ 10 ∉ v) →
      render (lit "xspf.html") (hdfOf name description) (hdfText songs) =
        .page (page name description (songs.map (HdfSong.map hdfValue)))
  /-- If a text with further lines is read, they say nothing. -/
  cuts : ∀ {name description songs content},
    nulFree name = true → nulFree description = true →
    (∀ s ∈ songs, ∀ v ∈ HdfSong.values s, nulFree v = true ∧ Unread v) →
    render (lit "xspf.html") (hdfOf name description) (hdfText songs) = .page content →
      content = page name description (songs.map (HdfSong.map hdfValue))

/-! ## A reader of the texts -/

/-- Keys with their values, a line for each. -/
def linesText (lines : List (Bytes × Bytes)) : Bytes :=
  lines.flatMap fun l => l.1 ++ l.2 ++ lit "\n"

/-- The values behind keys, and what is left. -/
def readLines : List Bytes → Bytes → Option (List Bytes × Bytes)
  | [], t => some ([], t)
  | key :: keys, t => do
    let t ← t.dropPrefix? key
    let (vs, rest) ← readLines keys ((t.dropWhile (· ≠ 10)).drop 1)
    return (hdfValue t :: vs, rest)

/-- What stands in front of the values of a song. -/
def songKeys (num : Nat) : List Bytes := [
  lit "  " ++ decimal num ++ lit " \x7b", lit "     url=", lit "     album=", lit "     artist=",
  lit "     title=", lit "     length=", lit "     image=", lit "    \x7d"]

/-- The songs up to the closing brace, at most `fuel` of them. -/
def readSongs : Nat → Nat → Bytes → Option (List HdfSong)
  | 0, _, _ => none
  | fuel + 1, num, t =>
    if t = lit "\x7d\n" then some []
    else
      match readLines (songKeys num) t with
      | some ([_, url, album, artist, title, length, image, _], rest) =>
        (readSongs fuel (num + 1) rest).map (⟨url, album, artist, title, length, image⟩ :: ·)
      | _ => none

/-- The page of a text that `Xspf` writes. -/
def reader : Renderer := fun _ hdf t =>
  match hdf, readLines [lit "Songs \x7b"] t with
  | [(_, .text name), (_, .text description)], some (_, rest) =>
    match readSongs t.length 1 rest with
    | some songs => .page (page name description songs)
    | none => .failed t
  | _, _ => .failed t

/-- A key: a part of a line that says something. -/
structure IsKey (k : Bytes) : Prop where
  line : 10 ∉ k
  mark : ∃ b ∈ k, isHdfMark b = true

theorem dropPrefix?_append (k t : Bytes) : (k ++ t).dropPrefix? k = some t :=
  List.dropPrefix?_append_of_beq t (beq_self_eq_true k)

theorem dropWhile_line {v : Bytes} (h : 10 ∉ v) (rest : Bytes) :
    (v ++ 10 :: rest).dropWhile (· ≠ 10) = 10 :: rest := by
  rw [List.dropWhile_append_of_pos, List.dropWhile_cons_of_neg (by simp)]
  refine fun b hb => decide_eq_true ?_
  rintro rfl
  exact h hb

/-- The first line of a value is its own. -/
theorem hdfValue_append (v rest : Bytes) : hdfValue (v ++ 10 :: rest) = hdfValue v := by
  have hline : (v ++ 10 :: rest).takeWhile (· ≠ 10) = v.takeWhile (· ≠ 10) := by
    induction v with
    | nil => rfl
    | cons b v ih =>
      rw [List.cons_append, List.takeWhile_cons, List.takeWhile_cons, ih]
  rw [hdfValue, hline, hdfValue]

/-- Values of one line are read. -/
theorem readLines_text {lines : List (Bytes × Bytes)} (h : ∀ l ∈ lines, 10 ∉ l.2) (rest : Bytes) :
    readLines (lines.map (·.1)) (linesText lines ++ rest) =
      some (lines.map fun l => hdfValue l.2, rest) := by
  induction lines with
  | nil => rfl
  | cons l lines ih =>
    simp only [List.forall_mem_cons] at h
    have htext : linesText (l :: lines) ++ rest =
        l.1 ++ (l.2 ++ 10 :: (linesText lines ++ rest)) := by
      simp [linesText, lit]
    rw [htext, List.map_cons, readLines, dropPrefix?_append]
    simp only [Option.bind_eq_bind, Option.bind_some, dropWhile_line h.1, List.drop_one,
      List.tail_cons, ih h.2, hdfValue_append]
    rfl

/-- A further line that says nothing begins with no key. -/
theorem no_key {k v rest : Bytes} (hk : IsKey k) (hv : 10 ∈ v) (hunread : Unread v) :
    (((v ++ 10 :: rest).dropWhile (· ≠ 10)).drop 1).dropPrefix? k = none := by
  obtain ⟨u, hu⟩ : ∃ u, v.dropWhile (· ≠ 10) = 10 :: u := by
    cases h : v.dropWhile (· ≠ 10) with
    | nil =>
      have hall := List.dropWhile_eq_nil_iff.mp h 10 hv
      simp at hall
    | cons b u =>
      have hb := List.head?_dropWhile_not (· ≠ (10 : UInt8)) v
      simp only [h, List.head?_cons, decide_eq_false_iff_not, not_not] at hb
      exact ⟨u, by rw [hb]⟩
  have hdrop : (v ++ 10 :: rest).dropWhile (· ≠ 10) = 10 :: (u ++ 10 :: rest) := by
    rw [List.dropWhile_append, hu]
    rfl
  rw [hdrop, List.drop_one, List.tail_cons]
  rw [Option.eq_none_iff_forall_ne_some]
  intro s hs
  obtain ⟨k', hsplit, hbeq⟩ := List.dropPrefix?_eq_some_iff.mp hs
  obtain rfl : k' = k := by simpa using hbeq
  obtain ⟨b, hb, hmark⟩ := hk.mark
  have hmem : b ∈ u := by
    rcases List.append_eq_append_iff.mp hsplit with ⟨c, rfl, hc⟩ | ⟨c, rfl, hc⟩
    · rcases List.mem_append.mp hb with hb | hb
      · exact hb
      · cases c with
        | nil => cases hb
        | cons d c =>
          obtain rfl : (10 : UInt8) = d := by simpa using (List.cons_eq_cons.mp hc).1
          exact absurd (by simp) hk.line
    · exact List.mem_append_left _ hb
  have := hunread b (by rw [hu]; exact List.mem_cons_of_mem _ hmem)
  rw [hmark] at this
  cases this

/-- If a text is read that ends in a line without a further one, no value has further lines. -/
theorem line_of_readLines {lines : List (Bytes × Bytes)} {last rest : Bytes} {x : List Bytes × Bytes}
    (h : ∀ l ∈ lines, IsKey l.1 ∧ Unread l.2) (hlast : IsKey last)
    (hx : readLines (lines.map (·.1) ++ [last])
      (linesText lines ++ (last ++ 10 :: rest)) = some x) : ∀ l ∈ lines, 10 ∉ l.2 := by
  induction lines generalizing x with
  | nil => exact fun _ h => nomatch h
  | cons l lines ih =>
    simp only [List.forall_mem_cons] at h ⊢
    have htext : linesText (l :: lines) ++ (last ++ 10 :: rest) =
        l.1 ++ (l.2 ++ 10 :: (linesText lines ++ (last ++ 10 :: rest))) := by
      simp [linesText, lit]
    rw [htext, List.map_cons, List.cons_append, readLines, dropPrefix?_append] at hx
    simp only [Option.bind_eq_bind, Option.bind_some, Option.bind_eq_some_iff] at hx
    obtain ⟨y, hy, -⟩ := hx
    have hline : 10 ∉ l.2 := by
      intro hmem
      cases lines with
      | nil =>
        rw [List.map_nil, List.nil_append, readLines, no_key hlast hmem h.1.2] at hy
        cases hy
      | cons m lines =>
        rw [List.map_cons, List.cons_append, readLines,
          no_key (h.2 m List.mem_cons_self).1 hmem h.1.2] at hy
        cases hy
    rw [dropWhile_line hline, List.drop_one, List.tail_cons] at hy
    exact ⟨hline, ih h.2 hy⟩

/-- The lines of a song before the last one. -/
def songLines (num : Nat) (s : HdfSong) : List (Bytes × Bytes) := [
  (lit "  " ++ decimal num ++ lit " \x7b", []), (lit "     url=", s.url),
  (lit "     album=", s.album), (lit "     artist=", s.artist), (lit "     title=", s.title),
  (lit "     length=", s.length), (lit "     image=", s.image)]

theorem songKeys_eq (num : Nat) (s : HdfSong) :
    songKeys num = (songLines num s).map (·.1) ++ [lit "    \x7d"] := rfl

theorem text_eq (num : Nat) (s : HdfSong) (rest : Bytes) :
    s.text num ++ rest = linesText (songLines num s) ++ (lit "    \x7d" ++ 10 :: rest) := by
  have h1 : lit "\n     url=" = lit "\n" ++ lit "     url=" := rfl
  have h2 : lit "\n     album=" = lit "\n" ++ lit "     album=" := rfl
  have h3 : lit "\n     artist=" = lit "\n" ++ lit "     artist=" := rfl
  have h4 : lit "\n     title=" = lit "\n" ++ lit "     title=" := rfl
  have h5 : lit "\n     length=" = lit "\n" ++ lit "     length=" := rfl
  have h6 : lit "\n     image=" = lit "\n" ++ lit "     image=" := rfl
  have h7 : lit "\n    \x7d\n" = lit "\n" ++ (lit "    \x7d" ++ [10]) := rfl
  simp only [HdfSong.text, h1, h2, h3, h4, h5, h6, h7, linesText, songLines, List.flatMap_cons,
    List.flatMap_nil, List.append_assoc, List.append_nil, List.nil_append, List.singleton_append]

theorem isKey_opening (num : Nat) : IsKey (lit "  " ++ decimal num ++ lit " \x7b") where
  line := by
    simp only [List.mem_append, not_or]
    refine ⟨⟨by decide, fun h => ?_⟩, by decide⟩
    exact absurd (isDigit_of_mem_decimal h) (by decide)
  mark := ⟨123, by simp [lit], rfl⟩

theorem isKey_songLines (num : Nat) (s : HdfSong) : ∀ l ∈ songLines num s, IsKey l.1 := by
  simp only [songLines, List.forall_mem_cons]
  refine ⟨isKey_opening num, ?_⟩
  exact ⟨⟨by decide, 61, by decide, rfl⟩, ⟨by decide, 61, by decide, rfl⟩,
    ⟨by decide, 61, by decide, rfl⟩, ⟨by decide, 61, by decide, rfl⟩,
    ⟨by decide, 61, by decide, rfl⟩, ⟨by decide, 61, by decide, rfl⟩, fun _ h => nomatch h⟩

theorem songLines_values {P : Bytes → Prop} (hnil : P []) (num : Nat) (s : HdfSong) :
    (∀ l ∈ songLines num s, P l.2) ↔ ∀ v ∈ s.values, P v := by
  simp only [songLines, HdfSong.values, List.forall_mem_cons, hnil, true_and]
  tauto

/-- The lines of songs, and the closing brace. -/
def songsText (num : Nat) (songs : List HdfSong) : Bytes :=
  ((songs.zipIdx num).flatMap fun s => s.1.text s.2) ++ lit "\x7d\n"

theorem songsText_cons (num : Nat) (s : HdfSong) (songs : List HdfSong) :
    songsText num (s :: songs) = linesText (songLines num s) ++
      (lit "    \x7d" ++ 10 :: songsText (num + 1) songs) := by
  rw [← text_eq, songsText, songsText, List.zipIdx_cons, List.flatMap_cons, List.append_assoc]

theorem songsText_ne (num : Nat) (s : HdfSong) (songs : List HdfSong) :
    songsText num (s :: songs) ≠ lit "\x7d\n" := by
  rw [songsText_cons]
  simp [linesText, songLines, lit]

/-- The lines of a song of one-line values are read. -/
theorem readLines_song {num : Nat} {s : HdfSong} (h : ∀ v ∈ s.values, 10 ∉ v) (rest : Bytes) :
    readLines (songKeys num) (linesText (songLines num s) ++ (lit "    \x7d" ++ 10 :: rest)) =
      some ([hdfValue [], hdfValue s.url, hdfValue s.album, hdfValue s.artist, hdfValue s.title,
        hdfValue s.length, hdfValue s.image, hdfValue []], rest) := by
  have hlines : ∀ l ∈ songLines num s ++ [(lit "    \x7d", [])], 10 ∉ l.2 := by
    simp only [List.forall_mem_append]
    exact ⟨(songLines_values (P := fun v => 10 ∉ v) List.not_mem_nil num s).mpr h, by simp⟩
  have htext : linesText (songLines num s) ++ (lit "    \x7d" ++ 10 :: rest) =
      linesText (songLines num s ++ [(lit "    \x7d", [])]) ++ rest := by
    simp [linesText, lit]
  rw [htext, songKeys_eq num s]
  exact (readLines_text hlines rest).trans rfl

theorem readSongs_text {songs : List HdfSong} (h : ∀ s ∈ songs, ∀ v ∈ s.values, 10 ∉ v)
    {fuel : Nat} (hfuel : songs.length < fuel) (num : Nat) :
    readSongs fuel num (songsText num songs) = some (songs.map (HdfSong.map hdfValue)) := by
  induction songs generalizing fuel num with
  | nil =>
    obtain ⟨fuel, rfl⟩ := Nat.exists_eq_succ_of_ne_zero (Nat.ne_zero_of_lt hfuel)
    rfl
  | cons s songs ih =>
    obtain ⟨fuel, rfl⟩ := Nat.exists_eq_succ_of_ne_zero (Nat.ne_zero_of_lt hfuel)
    simp only [List.forall_mem_cons] at h
    rw [readSongs, if_neg (songsText_ne num s songs), songsText_cons, readLines_song h.1]
    simp only [ih h.2 (Nat.lt_of_succ_lt_succ hfuel)]
    rfl

/-- If the songs are read, their values are of one line. -/
theorem line_of_readSongs {songs us : List HdfSong} (h : ∀ s ∈ songs, ∀ v ∈ s.values, Unread v)
    {fuel num : Nat} (hread : readSongs fuel num (songsText num songs) = some us) :
    ∀ s ∈ songs, ∀ v ∈ s.values, 10 ∉ v := by
  induction songs generalizing fuel num us with
  | nil => exact fun _ h => nomatch h
  | cons s songs ih =>
    simp only [List.forall_mem_cons] at h ⊢
    cases fuel with
    | zero => cases hread
    | succ fuel =>
      rw [readSongs, if_neg (songsText_ne num s songs), songsText_cons] at hread
      have hline : ∀ v ∈ s.values, 10 ∉ v := by
        cases hx : readLines (songKeys num) (linesText (songLines num s) ++
            (lit "    \x7d" ++ 10 :: songsText (num + 1) songs)) with
        | none =>
          rw [hx] at hread
          cases hread
        | some x =>
          rw [songKeys_eq num s] at hx
          refine (songLines_values (P := fun v => 10 ∉ v) List.not_mem_nil num s).mp
            (line_of_readLines (fun l hl => ⟨isKey_songLines num s l hl, ?_⟩)
              ⟨by decide, 125, by decide, rfl⟩ hx)
          exact (songLines_values (unread_of_line List.not_mem_nil) num s).mpr h.1 l hl
      rw [readLines_song hline] at hread
      simp only [Option.map_eq_some_iff] at hread
      obtain ⟨us', hus', -⟩ := hread
      exact ⟨hline, ih h.2 hus'⟩

theorem hdfText_eq (songs : List HdfSong) :
    hdfText songs = linesText [(lit "Songs \x7b", [])] ++ songsText 1 songs := by
  have hshift : (songs.zipIdx.flatMap fun s => s.1.text (s.2 + 1)) =
      (songs.zipIdx 1).flatMap fun s => s.1.text s.2 := by
    rw [List.zipIdx_succ, List.flatMap_map]
  rw [hdfText, hshift, songsText, List.append_assoc]
  rfl

theorem length_songsText (num : Nat) (songs : List HdfSong) :
    songs.length < (songsText num songs).length := by
  induction songs generalizing num with
  | nil => simp [songsText, lit]
  | cons s songs ih =>
    have := ih (num + 1)
    rw [songsText_cons]
    simp only [List.length_append, List.length_cons]
    omega

theorem reader_eq (name description : Bytes) (songs : List HdfSong) :
    reader (lit "xspf.html") (hdfOf name description) (hdfText songs) =
      match readSongs (hdfText songs).length 1 (songsText 1 songs) with
      | some songs => .page (page name description songs)
      | none => .failed (hdfText songs) := by
  have hread : readLines [lit "Songs \x7b"] (hdfText songs) =
      some ([hdfValue []], songsText 1 songs) := by
    rw [hdfText_eq]
    have hline : ∀ l ∈ [(lit "Songs \x7b", ([] : Bytes))], 10 ∉ l.2 := by simp
    exact readLines_text hline _
  unfold reader
  rw [hread]
  rfl

theorem length_hdfText (songs : List HdfSong) : songs.length < (hdfText songs).length := by
  have := length_songsText 1 songs
  rw [hdfText_eq, List.length_append]
  omega

/-- The reader is one as ClearSilver is relied on to be. -/
theorem reader_renders : Renders reader where
  reads := by
    intro name description songs _ _ h
    rw [reader_eq, readSongs_text (fun s hs v hv => (h s hs v hv).2) (length_hdfText songs)]
  cuts := by
    intro name description songs content _ _ h hpage
    rw [reader_eq] at hpage
    cases hread : readSongs (hdfText songs).length 1 (songsText 1 songs) with
    | none =>
      rw [hread] at hpage
      cases hpage
    | some us =>
      have hline := line_of_readSongs (fun s hs v hv => (h s hs v hv).2) hread
      rw [readSongs_text hline (length_hdfText songs)] at hpage
      exact (Rendered.page.inj hpage).symm

/-! ## The document -/

theorem dropWhile_escapeQuotes (t : Bytes) :
    (escapeQuotes t).dropWhile (· ≠ 10) = escapeQuotes (t.dropWhile (· ≠ 10)) := by
  unfold escapeQuotes replaceAll
  induction t with
  | nil => rfl
  | cons b t ih =>
    by_cases hline : b = 10
    · subst hline
      rfl
    · rw [List.dropWhile_cons_of_pos (a := b) (by simpa using hline), List.flatMap_cons, ← ih]
      by_cases hquote : b = 34
      · rw [if_pos hquote]
        rfl
      · rw [if_neg hquote, List.singleton_append, List.dropWhile_cons_of_pos (by simpa using hline)]

/-- Escaping puts nothing of HDF in. -/
theorem Unread.escaped {t : Bytes} (h : Unread t) : Unread (escapeQuotes t) := by
  intro b hb
  rw [dropWhile_escapeQuotes] at hb
  rcases mem_escapeQuotes hb with hb | rfl
  · exact h b hb
  · rfl

/-- If the further lines of the strings of a song say nothing, those of its values do not. -/
theorem unread_values {ticket : Bytes} (hticket : ∀ b ∈ ticket, isAlpha b = true) {s : NamedSong}
    (h : Unread s.song.title ∧ Unread s.artist ∧ Unread s.album) :
    ∀ v ∈ (written (songValues ticket s)).values, Unread v := by
  obtain ⟨htitle, hartist, halbum⟩ := h
  obtain ⟨hurl, hlength, himage⟩ := songValues_kept hticket s
  simp only [HdfSong.values, written, List.forall_mem_cons]
  exact ⟨unread_of_line hurl.line, halbum.escaped, hartist.escaped, htitle.escaped,
    unread_of_line hlength.line, unread_of_line himage.line, List.forall_mem_nil _⟩

/-- The strings of a playlist that come through: the name and the description can stand in XML as
they are, and the titles, artists and albums come through both encodings. -/
def Through (p : PlayListFields) (l : List NamedSong) : Prop :=
  Xml.Plain p.name ∧ Xml.Plain p.description ∧
    ∀ s ∈ l, Kept s.song.title ∧ Kept s.artist ∧ Kept s.album

variable [Affinity]

/-- What is serialised for a request is the document of the playlist. -/
def Shown (env : Env) (req : Request) (w : World) (p : PlayListFields) (l : List NamedSong) :
    Prop :=
  Shows ((after (handle env req) w).rep.finish env.render).content p.name p.description
    (l.map (songValues (ticketOf req)))

section

variable {env : Env} {req : Request} {w : World}

/-- What is serialised for a playlist is its document if its strings come through, and only then
if no further line of a string is one of HDF. -/
theorem tracks_iff (hrender : Renders env.render) (hrep : w.rep = .fresh)
    (h1 : req.u1 = lit "xspf") (hticket : ∀ b ∈ ticketOf req, isAlpha b = true)
    (hname : nulFree w.complete.name = true)
    (hdescription : nulFree w.complete.description = true)
    (hok : outcome (handle env req) w = .ok .stop) :
    ∃ p l, Listed env req w p l ∧
      (Through p l → Shown env req w p l) ∧
      ((∀ s ∈ l, Unread s.song.title ∧ Unread s.artist ∧ Unread s.album) →
        Shown env req w p l → Through p l) := by
  obtain ⟨p, l, hlisted, hwritten⟩ := handle_written hrep h1 hok
  obtain ⟨hpname, hpdescription⟩ := hlisted.nulFree_fields hname hdescription
  have hvalues := hlisted.nulFree_values hticket
  have hshows : Shows (page p.name p.description ((l.map fun s =>
      written (songValues (ticketOf req) s)).map (HdfSong.map hdfValue))) p.name p.description
        (l.map (songValues (ticketOf req))) ↔ Through p l := by
    rw [Through, ← playlist_shows_iff hticket, List.map_map, List.map_map]
    rfl
  refine ⟨p, l, hlisted, fun hthrough => ?_, fun hunread => ?_⟩
  · have hlines : ∀ s ∈ l.map (fun s => written (songValues (ticketOf req) s)),
        ∀ v ∈ HdfSong.values s, nulFree v = true ∧ 10 ∉ v := by
      simp only [List.forall_mem_map]
      exact fun s hs v hv =>
        ⟨hvalues s hs v hv, line_of_kept hticket (hthrough.2.2 s hs) v hv⟩
    have hpage := hrender.reads hpname hpdescription hlines
    rw [Shown, hwritten, Reply.finish, if_pos ⟨show lit "xspf.html" ≠ [] by decide, rfl⟩]
    dsimp only [replyFor]
    rw [hpage]
    exact hshows.mpr hthrough
  · have hfurther : ∀ s ∈ l.map (fun s => written (songValues (ticketOf req) s)),
        ∀ v ∈ HdfSong.values s, nulFree v = true ∧ Unread v := by
      simp only [List.forall_mem_map]
      exact fun s hs v hv => ⟨hvalues s hs v hv, unread_values hticket (hunread s hs) v hv⟩
    rw [Shown, hwritten, Reply.finish, if_pos ⟨show lit "xspf.html" ≠ [] by decide, rfl⟩]
    dsimp only [replyFor]
    split
    · rename_i content hpage
      rw [hrender.cuts hpname hpdescription hfurther hpage]
      exact hshows.mp
    · exact fun h => absurd h stock_not_shown

end

/-! ## Short playlists -/

omit [Affinity] in
theorem nulFree_sonny : nulFree (lit "Sonny Stitt") = true := rfl

omit [Affinity] in
theorem nulFree_now : nulFree (lit "Now!") = true := rfl

/-- A database with one song, which stands in the playlist 2. -/
def oneTrack (title : Bytes) (h : nulFree title = true) : Database :=
  { Database.empty with
    songs := .single 1 ⟨1, 1, 1, .empty, .ofLiteral title h, 1, 200, 0, 0⟩
    artists := .single 1 ⟨.ofLiteral (lit "Sonny Stitt") nulFree_sonny⟩
    albums := .single 1 ⟨.ofLiteral (lit "Now!") nulFree_now⟩
    playlists := .single 2 ⟨.ofLiteral (lit "a") nulFree_a, .empty,
      .ofLiteral (lit "present_order desc") nulFree_newOrder, 0⟩
    playlistSongs := .single 1 ⟨1, 1, 2⟩ }

/-- One more song and its entry in the playlist. -/
def twoTracks (first second : Bytes) (h : nulFree first = true) (h' : nulFree second = true) :
    Database :=
  { oneTrack first h with
    songs := (oneTrack first h).songs.insert ⟨1, 1, 1, .empty, .ofLiteral second h', 2, 200, 0, 0⟩
    playlistSongs := (oneTrack first h).playlistSongs.insert ⟨2, 2, 2⟩ }

/-- The surroundings with the reader. -/
def reading : Env := { Env.plain with render := reader }

/-- A user asks for the playlist 2. -/
def trackRequest : Request :=
  { Request.forUrl (lit "/xspf/2") ∅ with user := some ⟨1, lit "a", lit "a", lit "a", 0, 0⟩ }

/-- Whether the handler stops. -/
def stops (db : Database) : Bool :=
  match outcome (handle reading trackRequest) (.start db) with
  | .ok .stop => true
  | _ => false

theorem stops_ok {db : Database} (h : stops db = true) :
    outcome (handle reading trackRequest) (.start db) = .ok .stop := by
  unfold stops at h
  split at h
  · assumption
  · cases h

omit [Affinity] in
/-- Two titles that need no escaping. -/
theorem peanuts_tracks : ∃ _ : Affinity,
    let w := World.start (twoTracks (lit "Salt Peanuts") (lit "Be-Bop") rfl rfl)
    ∃ p l, Listed reading trackRequest w p l ∧
      (Through p l → Shown reading trackRequest w p l) ∧
      ((∀ s ∈ l, Unread s.song.title ∧ Unread s.artist ∧ Unread s.album) →
        Shown reading trackRequest w p l → Through p l) := by
  let _ := integerAffinity
  have hticket : ∀ b ∈ ticketOf trackRequest, isAlpha b = true := by
    intro b hb
    obtain rfl : b = 97 := List.mem_singleton.mp hb
    rfl
  exact ⟨integerAffinity, tracks_iff reader_renders rfl (by decide +kernel) hticket rfl rfl
    (@stops_ok integerAffinity
      (@twoTracks integerAffinity (lit "Salt Peanuts") (lit "Be-Bop") rfl rfl)
      (by decide +kernel))⟩

omit [Affinity] in
/-- The ampersand of a title begins a reference in the document, which has no end. -/
theorem salt_malformed : ∃ _ : Affinity,
    let w := World.start (oneTrack (lit "Salt & Pepper") rfl)
    outcome (handle reading trackRequest) w = .ok .stop ∧
      Xml.tokens ((after (handle reading trackRequest) w).rep.finish reader).content = none :=
  ⟨integerAffinity, @stops_ok integerAffinity _ (by decide +kernel), by decide +kernel⟩

end Handlers.Xspf

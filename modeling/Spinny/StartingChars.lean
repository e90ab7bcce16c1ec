import Spinny.Library
import Spinny.Sqlite.Like

/-!
# The first characters of the names

`starting_chars` groups the artists, or the albums, by `upper( substr( name, 1, 1 ) )` and reads
each group as a `char`; `name_starts_with` shows a group again by a pattern.

* `Partitions`: what the groups and the lists below them are to be.
* `Groupable`: the tables for which they are.
* `partitions_iff`: one theorem for both classes; `starting_chars_iff`: the two cases.
-/

namespace Spinny

open Bytes Sqlite Proc

variable [Affinity] {rows : List (Int × NameRow)} {r : Int × NameRow} {c : UInt8} {w : World}

/-- The group of a row. -/
def groupOf (r : Int × NameRow) : Bytes := toUpperCopy (firstChar r.2.name.val)

/-- The rows of a group. -/
def groupRows (rows : List (Int × NameRow)) (key : Bytes) : List (Int × NameRow) :=
  rows.filter fun r => groupOf r == key

/-- `upper( name ) like 'c%'`. -/
def startsWithChar (c : UInt8) (r : Int × NameRow) : Bool :=
  patternCompare false [c, 37] (toUpperCopy r.2.name.val)

/-- The groups are read, each character shows as many rows as its group counts, and every row with a
name is shown by exactly one of the characters. -/
def Partitions {α : Type} (rows : List (Int × NameRow)) (starts : Act (List (UInt8 × Nat)))
    (startsWith : Bytes → Act (List α)) (dbId : α → Int) (w : World) : Prop :=
  ∃ groups, Returns starts w groups w ∧ (groups.map Prod.fst).Nodup ∧
    (∀ g ∈ groups, ∃ l, Returns (startsWith [g.1]) w l w ∧ l.length = g.2) ∧
    ∀ r ∈ rows, r.2.name.val ≠ [] →
      ∃! c, c ∈ groups.map Prod.fst ∧ ∃ l, Returns (startsWith [c]) w l w ∧ r.1 ∈ l.map dbId

/-- The tables that the groups partition: every name begins with its first character, which is one
byte with no meaning in a pattern; or all names begin with `_`, or all and no row is without one,
with `%`. A group is counted in an `unsigned int`. -/
structure Groupable (rows : List (Int × NameRow)) : Prop where
  counts : ∀ c : UInt8, (groupRows rows [c]).length < 2 ^ 32
  chars : (∀ r ∈ rows, firstChar r.2.name.val = [37]) ∨
    (∀ r ∈ rows, r.2.name.val ≠ [] → firstChar r.2.name.val = [95]) ∨
    ∀ r ∈ rows, r.2.name.val ≠ [] → ∃ c rest, r.2.name.val = c :: rest ∧
      firstChar r.2.name.val = [c] ∧ c ≠ 37 ∧ c ≠ 95

/-- The statements that list the rows below a character are not refused, if there are any. -/
def Clean (rows : List (Int × NameRow)) (w : World) : Prop :=
  w.stale = false ∨ ∀ r ∈ rows, r.2.name.val = []

/-! ## The groups -/

theorem name_ne_nil (h : firstChar r.2.name.val ≠ []) : r.2.name.val ≠ [] := by
  intro hnil
  rw [hnil] at h
  exact h rfl

theorem groupOf_eq_nil : groupOf r = [] ↔ firstChar r.2.name.val = [] := List.map_eq_nil_iff

/-- The group of a row by one character. -/
theorem groupOf_eq_char :
    groupOf r = [c] ↔ ∃ b, firstChar r.2.name.val = [b] ∧ upperAscii b = c := by
  simp [groupOf, toUpperCopy, List.map_eq_singleton_iff]

/-- A character that is no letter. -/
theorem groupOf_eq_sign (hc : c.toNat < 65 ∨ c.toNat = 95) :
    groupOf r = [c] ↔ firstChar r.2.name.val = [c] := by
  rw [groupOf_eq_char]
  constructor
  · rintro ⟨b, hb, hbc⟩
    rw [hb, (upperAscii_eq_iff hc).mp hbc]
  · exact fun h => ⟨c, h, (upperAscii_eq_iff hc).mpr rfl⟩

/-- The names hold no NUL. -/
theorem char_ne_zero (h : groupOf r = [c]) : c ≠ 0 := by
  obtain ⟨b, hb, rfl⟩ := groupOf_eq_char.mp h
  intro hzero
  obtain rfl := (upperAscii_eq_iff (by decide)).mp hzero
  exact nulFree_iff.mp r.2.name.nulFree_val (firstChar_eq_cons hb).2

theorem mem_groupRows {key : Bytes} : r ∈ groupRows rows key ↔ r ∈ rows ∧ groupOf r = key := by
  simp [groupRows]

/-- The keys of the groups with their repetitions. -/
def groupKeys (rows : List (Int × NameRow)) : List Bytes :=
  (rows.filter fun r => 0 < charLength r.2.name.val).map groupOf

theorem mem_groupKeys {key : Bytes} :
    key ∈ groupKeys rows ↔ key ≠ [] ∧ groupRows rows key ≠ [] := by
  rw [groupKeys, List.mem_map]
  constructor
  · rintro ⟨r, hr, rfl⟩
    obtain ⟨hr, hpos⟩ := List.mem_filter.mp hr
    rw [decide_eq_true_eq, charLength_pos] at hpos
    exact ⟨mt groupOf_eq_nil.mp hpos, List.ne_nil_of_mem (mem_groupRows.mpr ⟨hr, rfl⟩)⟩
  · rintro ⟨hne, hrows⟩
    obtain ⟨r, hr⟩ := List.exists_mem_of_ne_nil _ hrows
    obtain ⟨hmem, rfl⟩ := mem_groupRows.mp hr
    refine ⟨r, List.mem_filter.mpr ⟨hmem, ?_⟩, rfl⟩
    rw [decide_eq_true_eq, charLength_pos]
    exact mt groupOf_eq_nil.mpr hne

theorem count_groupKeys {key : Bytes} (hne : key ≠ []) :
    (groupKeys rows).count key = (groupRows rows key).length := by
  rw [groupKeys, List.count_eq_countP, List.countP_map, List.countP_filter,
    List.countP_eq_length_filter, groupRows]
  refine congrArg List.length (List.filter_congr fun r _ => ?_)
  rw [Bool.eq_iff_iff]
  rw [Bool.and_eq_true, Function.comp_apply, beq_iff_eq, decide_eq_true_eq, charLength_pos]
  constructor
  · exact fun h => h.1
  · rintro rfl
    exact ⟨rfl, mt groupOf_eq_nil.mpr hne⟩

theorem mem_startingGroups {g : Bytes × Nat} :
    g ∈ startingGroups rows ↔
      g.1 ≠ [] ∧ groupRows rows g.1 ≠ [] ∧ g.2 = (groupRows rows g.1).length := by
  have hkeys : ∀ key, key ∈ (groupKeys rows).dedup.mergeSort (fun a b => decide (a ≤ b)) ↔
      key ≠ [] ∧ groupRows rows key ≠ [] := by
    intro key
    rw [List.mem_mergeSort, List.mem_dedup, mem_groupKeys]
  rw [← and_assoc, ← hkeys]
  change g ∈ ((groupKeys rows).dedup.mergeSort fun a b => decide (a ≤ b)).map
    (fun k => (k, (groupKeys rows).count k)) ↔ _
  rw [List.mem_map]
  constructor
  · rintro ⟨k, hk, rfl⟩
    exact ⟨hk, count_groupKeys ((hkeys k).mp hk).1⟩
  · rintro ⟨hk, hn⟩
    exact ⟨g.1, hk, Prod.ext rfl ((count_groupKeys ((hkeys _).mp hk).1).trans hn.symm)⟩

theorem nodup_startingGroups (rows : List (Int × NameRow)) :
    ((startingGroups rows).map Prod.fst).Nodup := by
  have hmap : (startingGroups rows).map Prod.fst =
      (groupKeys rows).dedup.mergeSort fun a b => decide (a ≤ b) := by
    rw [startingGroups, List.map_map]
    exact List.map_id _
  rw [hmap, (List.mergeSort_perm _ _).nodup_iff]
  exact List.nodup_dedup _

/-! ## Reading the groups -/

/-- `starting_chars` of the two classes. -/
def starting (table : Database → Table NameRow) : Act (List (UInt8 × Nat)) := do
  (← execText fun db => startingGroups (table db).rows).mapM startingChar

theorem outcome_startingChar {g : Bytes × Nat} {b : UInt8 × Nat} :
    outcome (startingChar g) w = .ok b ↔ g.2 < 2 ^ 32 ∧ g = ([b.1], b.2) := by
  obtain ⟨key, n⟩ := g
  match key with
  | [] => simp [startingChar]
  | [c] =>
    simp only [startingChar, cast_some, countUnsigned]
    by_cases hn : n < 2 ^ 32
    · simp only [if_pos hn]
      change Except.ok (c, n) = .ok b ↔ _
      constructor
      · intro h
        obtain rfl := Except.ok.inj h
        exact ⟨hn, rfl⟩
      · rintro ⟨-, h⟩
        cases h
        rfl
    · simp only [if_neg hn]
      exact iff_of_false (fun h => by cases h) fun h => hn h.1
  | c :: d :: rest => simp [startingChar]

theorem after_startingChar (g : Bytes × Nat) (w : World) : after (startingChar g) w = w := by
  obtain ⟨key, n⟩ := g
  match key with
  | [] => rfl
  | [c] =>
    simp only [startingChar, cast_some, countUnsigned]
    by_cases hn : n < 2 ^ 32
    · simp only [if_pos hn]
      rfl
    · simp only [if_neg hn]
      rfl
  | c :: d :: rest => rfl

/-- The groups are read where each is one character and counted in 32 bits. -/
theorem starting_returns_iff {table : Database → Table NameRow} {groups : List (UInt8 × Nat)} :
    Returns (starting table) w groups w ↔
      (∀ g ∈ startingGroups (table w.db).rows, g.2 < 2 ^ 32) ∧
        startingGroups (table w.db).rows = groups.map fun b => ([b.1], b.2) := by
  have hrun : Returns (starting table) w groups w ↔
      Returns ((startingGroups (table w.db).rows).mapM startingChar) w groups w :=
    ⟨fun h => ⟨h.outcome, h.after⟩, fun h => ⟨h.outcome, h.after⟩⟩
  rw [hrun, mapM_returns_iff fun g _ => after_startingChar g w]
  simp only [outcome_startingChar]
  rw [List.forall₂_and_left, ← List.forall₂_eq_eq_eq, List.forall₂_map_right_iff]

/-! ## The rows below a character -/

/-- Below a character `name_starts_with` shows the rows that the pattern matches. -/
structure ShowsPattern {α : Type} (rows : List (Int × NameRow))
    (startsWith : Bytes → Act (List α)) (dbId : α → Int) (w : World) : Prop where
  outcome : ∀ c, c ≠ 0 → ∃ l, outcome (startsWith [c]) w =
      (if w.stale = true then .error .databaseError else .ok l) ∧
    (l.map dbId).Perm ((rows.filter (startsWithChar c)).map Prod.fst)
  after : ∀ c, c ≠ 0 → after (startsWith [c]) w = w

/-- `name_starts_with` of the two classes. -/
theorem showsPattern {α : Type} (table : Database → Table NameRow)
    (make : Database → Int × NameRow → α) (name : α → Bytes) {dbId : α → Int}
    (hname : ∀ db r, name (make db r) = r.2.name.val) (hid : ∀ db r, dbId (make db r) = r.1) :
    ShowsPattern (table w.db).rows (fun text => loadRows (nulFree text) fun db =>
      orderByUpper name (((table db).rows.map (make db)).filter fun a =>
        patternCompare false (text ++ [37]) (toUpperCopy (name a)))) dbId w := by
  have hfree : ∀ c : UInt8, c ≠ 0 → nulFree [c] = true := by
    intro c hc
    rw [nulFree_iff, List.mem_singleton]
    exact hc.symm
  constructor
  · intro c hc
    refine ⟨orderByUpper name (((table w.db).rows.map (make w.db)).filter fun a =>
      patternCompare false ([c] ++ [37]) (toUpperCopy (name a))), ?_, ?_⟩
    · rw [outcome_loadRows, hfree c hc]
      simp only [Bool.true_eq_false, or_false]
    · refine ((List.mergeSort_perm _ _).map dbId).trans (List.Perm.of_eq ?_)
      rw [List.filter_map, List.map_map]
      have hmap : dbId ∘ make w.db = Prod.fst := funext fun r => hid w.db r
      have hfilter : (fun a => patternCompare false ([c] ++ [37]) (toUpperCopy (name a))) ∘
          make w.db = startsWithChar c :=
        funext fun r => by
          rw [Function.comp_apply, hname]
          rfl
      rw [hmap, hfilter]
  · intro c hc
    rw [after_loadRows, hfree c hc, Bool.not_true, Bool.or_false]

theorem ShowsPattern.returns {α : Type} {startsWith : Bytes → Act (List α)} {dbId : α → Int}
    (h : ShowsPattern rows startsWith dbId w) (hc : c ≠ 0) (hs : w.stale = false) :
    ∃ l, Returns (startsWith [c]) w l w ∧
      (l.map dbId).Perm ((rows.filter (startsWithChar c)).map Prod.fst) := by
  obtain ⟨l, hout, hperm⟩ := h.outcome c hc
  rw [if_neg (by simp [hs])] at hout
  exact ⟨l, ⟨hout, h.after c hc⟩, hperm⟩

theorem ShowsPattern.of_returns {α : Type} {startsWith : Bytes → Act (List α)} {dbId : α → Int}
    {l : List α} {w' : World} (h : ShowsPattern rows startsWith dbId w) (hc : c ≠ 0)
    (hl : Returns (startsWith [c]) w l w') :
    w.stale = false ∧ (l.map dbId).Perm ((rows.filter (startsWithChar c)).map Prod.fst) := by
  obtain ⟨l', hout, hperm⟩ := h.outcome c hc
  rw [hl.outcome] at hout
  cases hs : w.stale with
  | true =>
    rw [if_pos hs] at hout
    cases hout
  | false =>
    rw [if_neg (by simp [hs])] at hout
    obtain rfl := Except.ok.inj hout
    exact ⟨rfl, hperm⟩

/-- A row is in the list below a character if the pattern matches its name. -/
theorem mem_shown {l : List Int} (hids : (rows.map Prod.fst).Nodup)
    (hl : l.Perm ((rows.filter (startsWithChar c)).map Prod.fst)) (hr : r ∈ rows) :
    r.1 ∈ l ↔ startsWithChar c r = true := by
  rw [hl.mem_iff, List.mem_map]
  constructor
  · rintro ⟨r', hr', hid⟩
    obtain ⟨hmem, hmatch⟩ := List.mem_filter.mp hr'
    rwa [← List.inj_on_of_nodup_map hids hmem hr hid]
  · exact fun h => ⟨r, List.mem_filter.mpr ⟨hr, h⟩, rfl⟩

theorem startsWithChar_iff : startsWithChar c r = true ↔
    c = 37 ∨ (c = 95 ∧ r.2.name.val ≠ []) ∨ (c ≠ 37 ∧ c ≠ 95 ∧ ∃ b rest,
      r.2.name.val = b :: rest ∧ lowerAscii (upperAscii b) = lowerAscii c) := by
  rw [startsWithChar, patternCompare_char, toUpperCopy]
  cases r.2.name.val with
  | nil => simp
  | cons b rest => simp

/-! ## Tables that the groups partition -/

theorem Groupable.single (h : Groupable rows) (hr : r ∈ rows) (hne : r.2.name.val ≠ []) :
    ∃ c, firstChar r.2.name.val = [c] := by
  rcases h.chars with h | h | h
  · exact ⟨37, h r hr⟩
  · exact ⟨95, h r hr hne⟩
  · obtain ⟨c, -, -, hc, -⟩ := h r hr hne
    exact ⟨c, hc⟩

/-- In such a table the pattern and the group of a character that has a group agree. -/
theorem Groupable.agree (h : Groupable rows) (hc : groupRows rows [c] ≠ []) (hr : r ∈ rows) :
    startsWithChar c r = true ↔ groupOf r = [c] := by
  obtain ⟨r₀, hr₀⟩ := List.exists_mem_of_ne_nil _ hc
  obtain ⟨hmem, hgroup⟩ := mem_groupRows.mp hr₀
  obtain ⟨b₀, hfirst, rfl⟩ := groupOf_eq_char.mp hgroup
  have hne : r₀.2.name.val ≠ [] := name_ne_nil (by simp [hfirst])
  rw [startsWithChar_iff]
  rcases h.chars with hall | hall | hall
  · -- Every name begins with `%`.
    obtain rfl := List.singleton_inj.mp (hfirst.symm.trans (hall r₀ hmem))
    rw [show upperAscii 37 = 37 from rfl, groupOf_eq_sign (by decide)]
    exact iff_of_true (.inl rfl) (hall r hr)
  · -- Every name begins with `_`.
    obtain rfl := List.singleton_inj.mp (hfirst.symm.trans (hall r₀ hmem hne))
    rw [show upperAscii 95 = 95 from rfl, groupOf_eq_sign (by decide)]
    constructor
    · rintro (h | ⟨-, hname⟩ | ⟨-, h, -⟩)
      · exact absurd h (by decide)
      · exact hall r hr hname
      · exact absurd rfl h
    · exact fun hr => .inr (.inl ⟨rfl, name_ne_nil (by simp [hr])⟩)
  · obtain ⟨b, rest, hname₀, hb, h37, h95⟩ := hall r₀ hmem hne
    obtain rfl := List.singleton_inj.mp (hfirst.symm.trans hb)
    have h37' : upperAscii b₀ ≠ 37 := mt (upperAscii_eq_iff (by decide)).mp h37
    have h95' : upperAscii b₀ ≠ 95 := mt (upperAscii_eq_iff (by decide)).mp h95
    rw [groupOf_eq_char]
    constructor
    · rintro (h | ⟨h, -⟩ | ⟨-, -, a, s, hname, hlower⟩)
      · exact absurd h h37'
      · exact absurd h h95'
      · obtain ⟨a', s', hname', ha', -⟩ := hall r hr (by simp [hname])
        obtain ⟨rfl, rfl⟩ := List.cons.inj (hname.symm.trans hname')
        exact ⟨a, ha', lowerAscii_inj_upper.mp hlower⟩
    · rintro ⟨a, ha, hupper⟩
      obtain ⟨a', s', hname', ha', -⟩ := hall r hr (name_ne_nil (by simp [ha]))
      obtain rfl := List.singleton_inj.mp (ha.symm.trans ha')
      exact .inr (.inr ⟨h37', h95', a, s', hname', congrArg lowerAscii hupper⟩)

section

variable {α : Type} {table : Database → Table NameRow} {startsWith : Bytes → Act (List α)}
  {dbId : α → Int}

/-- The characters of a groupable table with the sizes of their groups. -/
theorem Groupable.starts (h : Groupable (table w.db).rows) :
    ∃ groups, Returns (starting table) w groups w ∧ (groups.map Prod.fst).Nodup ∧
      ∀ c n, (c, n) ∈ groups ↔ groupRows (table w.db).rows [c] ≠ [] ∧
        n = (groupRows (table w.db).rows [c]).length := by
  have hsingle : ∀ g ∈ startingGroups (table w.db).rows, ∃ c, g.1 = [c] := by
    intro g hg
    obtain ⟨hne, hrows, -⟩ := mem_startingGroups.mp hg
    obtain ⟨r, hr⟩ := List.exists_mem_of_ne_nil _ hrows
    obtain ⟨hmem, hgroup⟩ := mem_groupRows.mp hr
    have hfirst : firstChar r.2.name.val ≠ [] := by
      rw [← hgroup] at hne
      exact mt groupOf_eq_nil.mpr hne
    obtain ⟨c, hc⟩ := h.single hmem (name_ne_nil hfirst)
    exact ⟨upperAscii c, hgroup.symm.trans (groupOf_eq_char.mpr ⟨c, hc, rfl⟩)⟩
  have hmap : startingGroups (table w.db).rows =
      ((startingGroups (table w.db).rows).map fun g => (g.1.headD 0, g.2)).map
        fun b => ([b.1], b.2) := by
    rw [List.map_map]
    refine (List.map_id _).symm.trans (List.map_congr_left fun g hg => ?_)
    obtain ⟨c, hc⟩ := hsingle g hg
    refine Prod.ext ?_ rfl
    rw [Function.comp_apply, hc]
    exact hc
  refine ⟨_, starting_returns_iff.mpr ⟨fun g hg => ?_, hmap⟩, ?_, fun c n => ?_⟩
  · obtain ⟨c, hc⟩ := hsingle g hg
    rw [(mem_startingGroups.mp hg).2.2, hc]
    exact h.counts c
  · have hnodup := nodup_startingGroups (table w.db).rows
    rw [hmap, List.map_map] at hnodup
    have hfst : Prod.fst ∘ (fun b : UInt8 × Nat => ([b.1], b.2)) = (fun c => [c]) ∘ Prod.fst := rfl
    rw [hfst, ← List.map_map] at hnodup
    exact hnodup.of_map _
  · have hmem : (c, n) ∈ (startingGroups (table w.db).rows).map (fun g => (g.1.headD 0, g.2)) ↔
        ([c], n) ∈ startingGroups (table w.db).rows := by
      conv_rhs => rw [hmap]
      rw [List.mem_map (f := fun b : UInt8 × Nat => ([b.1], b.2))]
      constructor
      · exact fun hb => ⟨_, hb, rfl⟩
      · rintro ⟨b, hb, heq⟩
        simp only [Prod.mk.injEq, List.cons.injEq, and_true] at heq
        rwa [← heq.1, ← heq.2]
    rw [hmem, mem_startingGroups]
    exact and_iff_right (List.cons_ne_nil _ _)

theorem Groupable.partitions (hids : ((table w.db).rows.map Prod.fst).Nodup)
    (hshows : ShowsPattern (table w.db).rows startsWith dbId w)
    (h : Groupable (table w.db).rows) (hclean : Clean (table w.db).rows w) :
    Partitions (table w.db).rows (starting table) startsWith dbId w := by
  obtain ⟨groups, hreturns, hnodup, hmem⟩ := h.starts
  have hstale : ∀ r ∈ (table w.db).rows, r.2.name.val ≠ [] → w.stale = false :=
    fun r hr hne => hclean.resolve_right fun hall => hne (hall r hr)
  have hshown : ∀ c, groupRows (table w.db).rows [c] ≠ [] →
      ∃ l, Returns (startsWith [c]) w l w ∧
        (l.map dbId).Perm (((table w.db).rows.filter (startsWithChar c)).map Prod.fst) := by
    intro c hc
    obtain ⟨r, hr⟩ := List.exists_mem_of_ne_nil _ hc
    obtain ⟨hr, hgroup⟩ := mem_groupRows.mp hr
    obtain ⟨b, hb, -⟩ := groupOf_eq_char.mp hgroup
    exact hshows.returns (char_ne_zero hgroup) (hstale r hr (name_ne_nil (by simp [hb])))
  refine ⟨groups, hreturns, hnodup, fun g hg => ?_, fun r hr hne => ?_⟩
  · obtain ⟨hc, hn⟩ := (hmem g.1 g.2).mp hg
    obtain ⟨l, hl, hperm⟩ := hshown g.1 hc
    refine ⟨l, hl, ?_⟩
    have hlength := hperm.length_eq
    rw [List.length_map, List.length_map] at hlength
    rw [hlength, hn, groupRows]
    refine congrArg List.length (List.filter_congr fun r hr => ?_)
    rw [Bool.eq_iff_iff, h.agree hc hr, beq_iff_eq]
  · obtain ⟨b, hb⟩ := h.single hr hne
    have hgroup : groupOf r = [upperAscii b] := groupOf_eq_char.mpr ⟨b, hb, rfl⟩
    have hc : groupRows (table w.db).rows [upperAscii b] ≠ [] :=
      List.ne_nil_of_mem (mem_groupRows.mpr ⟨hr, hgroup⟩)
    refine ⟨upperAscii b, ⟨List.mem_map.mpr ⟨_, (hmem _ _).mpr ⟨hc, rfl⟩, rfl⟩, ?_⟩, ?_⟩
    · obtain ⟨l, hl, hperm⟩ := hshown _ hc
      exact ⟨l, hl, (mem_shown hids hperm hr).mpr ((h.agree hc hr).mpr hgroup)⟩
    · rintro c ⟨hcg, l, hl, hrl⟩
      obtain ⟨g, hg, rfl⟩ := List.mem_map.mp hcg
      have hc' := ((hmem g.1 g.2).mp hg).1
      obtain ⟨l', hl', hperm⟩ := hshown g.1 hc'
      obtain rfl := Except.ok.inj (hl.outcome.symm.trans hl'.outcome)
      have hgroup' := (h.agree hc' hr).mp ((mem_shown hids hperm hr).mp hrl)
      exact List.singleton_inj.mp (hgroup'.symm.trans hgroup)

omit [Affinity] in
/-- A part of a list that is as long as one it lies in is all of it. -/
theorem of_length_filter_eq {β : Type} {l : List β} {p q : β → Bool}
    (hpq : ∀ b ∈ l, p b = true → q b = true) (h : (l.filter p).length = (l.filter q).length) :
    ∀ b ∈ l, q b = true → p b = true := by
  have hboth : l.filter p = (l.filter q).filter p := by
    rw [List.filter_filter]
    refine List.filter_congr fun b hb => ?_
    cases hp : p b with
    | true => rw [hpq b hb hp, Bool.and_true]
    | false => rw [Bool.false_and]
  rw [hboth, List.length_filter_eq_length_iff] at h
  exact fun b hb hq => h b (List.mem_filter.mpr ⟨hb, hq⟩)

theorem Partitions.groupable (hids : ((table w.db).rows.map Prod.fst).Nodup)
    (hshows : ShowsPattern (table w.db).rows startsWith dbId w)
    (h : Partitions (table w.db).rows (starting table) startsWith dbId w) :
    Groupable (table w.db).rows ∧ Clean (table w.db).rows w := by
  obtain ⟨groups, hreturns, -, hcounts, hunique⟩ := h
  obtain ⟨hsmall, hmap⟩ := starting_returns_iff.mp hreturns
  have hmem : ∀ c n, (c, n) ∈ groups → ([c], n) ∈ startingGroups (table w.db).rows := by
    intro c n hg
    rw [hmap]
    exact List.mem_map.mpr ⟨(c, n), hg, rfl⟩
  have hgroup : ∀ r ∈ (table w.db).rows, firstChar r.2.name.val ≠ [] →
      ∃ g ∈ groups, groupOf r = [g.1] := by
    intro r hr hne
    have hkey : (groupOf r, (groupRows (table w.db).rows (groupOf r)).length) ∈
        startingGroups (table w.db).rows :=
      mem_startingGroups.mpr ⟨mt groupOf_eq_nil.mp hne,
        List.ne_nil_of_mem (mem_groupRows.mpr ⟨hr, rfl⟩), rfl⟩
    rw [hmap] at hkey
    obtain ⟨g, hg, heq⟩ := List.mem_map.mp hkey
    exact ⟨g, hg, (congrArg Prod.fst heq).symm⟩
  have hchar : ∀ c n, (c, n) ∈ groups → c ≠ 0 ∧ isContinuation c = false ∧
      n = (groupRows (table w.db).rows [c]).length := by
    intro c n hg
    obtain ⟨-, hrows, hn⟩ := mem_startingGroups.mp (hmem c n hg)
    obtain ⟨r, hr⟩ := List.exists_mem_of_ne_nil _ hrows
    have hkey := (mem_groupRows.mp hr).2
    obtain ⟨b, hb, rfl⟩ := groupOf_eq_char.mp hkey
    exact ⟨char_ne_zero hkey, by rw [isContinuation_upperAscii, (firstChar_eq_cons hb).1], hn⟩
  -- A character shows as many rows as it has in its group.
  have hlength : ∀ c n, (c, n) ∈ groups →
      ((table w.db).rows.filter fun r => groupOf r == [c]).length =
        ((table w.db).rows.filter (startsWithChar c)).length := by
    intro c n hg
    obtain ⟨l, hl, hn⟩ := hcounts (c, n) hg
    have hperm := (hshows.of_returns (hchar c n hg).1 hl).2.length_eq
    rw [List.length_map, List.length_map, hn] at hperm
    rw [← hperm]
    exact (hchar c n hg).2.2.symm
  have hclean : Clean (table w.db).rows w := by
    by_cases hall : ∀ r ∈ (table w.db).rows, r.2.name.val = []
    · exact .inr hall
    · push Not at hall
      obtain ⟨r, hr, hne⟩ := hall
      obtain ⟨c, ⟨hcg, l, hl, -⟩, -⟩ := hunique r hr hne
      obtain ⟨g, hg, rfl⟩ := List.mem_map.mp hcg
      exact .inl (hshows.of_returns (hchar g.1 g.2 hg).1 hl).1
  refine ⟨⟨fun c => ?_, ?_⟩, hclean⟩
  · by_cases hnil : groupRows (table w.db).rows [c] = []
    · simp [hnil]
    · exact hsmall ([c], _) (mem_startingGroups.mpr ⟨List.cons_ne_nil _ _, hnil, rfl⟩)
  by_cases h37 : ∃ n, (37, n) ∈ groups
  · -- `%` shows every row.
    obtain ⟨n, hg⟩ := h37
    refine .inl fun r hr => (groupOf_eq_sign (by decide)).mp (beq_iff_eq.mp ?_)
    exact of_length_filter_eq (fun _ _ _ => startsWithChar_iff.mpr (.inl rfl)) (hlength 37 n hg)
      r hr (startsWithChar_iff.mpr (.inl rfl))
  by_cases h95 : ∃ n, (95, n) ∈ groups
  · -- `_` shows every row with a name.
    obtain ⟨n, hg⟩ := h95
    refine .inr (.inl fun r hr hne => (groupOf_eq_sign (by decide)).mp (beq_iff_eq.mp ?_))
    refine of_length_filter_eq (fun r' _ hr' => ?_) (hlength 95 n hg) r hr
      (startsWithChar_iff.mpr (.inr (.inl ⟨rfl, hne⟩)))
    have hfirst := (groupOf_eq_sign (c := 95) (by decide)).mp (beq_iff_eq.mp hr')
    exact startsWithChar_iff.mpr (.inr (.inl ⟨rfl, name_ne_nil (by simp [hfirst])⟩))
  · refine .inr (.inr fun r hr hne => ?_)
    obtain ⟨c, ⟨hcg, l, hl, hrl⟩, -⟩ := hunique r hr hne
    obtain ⟨g, hg, rfl⟩ := List.mem_map.mp hcg
    obtain ⟨hzero, hcont, -⟩ := hchar g.1 g.2 hg
    have hshown := (mem_shown hids (hshows.of_returns hzero hl).2 hr).mp hrl
    rcases startsWithChar_iff.mp hshown with hc | ⟨hc, -⟩ | ⟨-, -, b, rest, hname, hlower⟩
    · exact absurd ⟨g.2, hc ▸ hg⟩ h37
    · exact absurd ⟨g.2, hc ▸ hg⟩ h95
    · have hb : isContinuation b = false := by
        rw [← isContinuation_upperAscii, isContinuation_eq hlower, hcont]
      have hfirst : firstChar r.2.name.val = b :: rest.takeWhile isContinuation := by
        rw [hname, firstChar_of_not_continuation hb]
      obtain ⟨g', hg', hkey⟩ := hgroup r hr (by simp [hfirst])
      obtain ⟨a, ha, hupper⟩ := groupOf_eq_char.mp hkey
      obtain rfl : b = a := (List.cons.inj (hfirst.symm.trans ha)).1
      refine ⟨b, rest, hname, ha, ?_, ?_⟩
      · rintro rfl
        have hg37 : g'.1 = 37 := hupper.symm
        exact h37 ⟨g'.2, hg37 ▸ hg'⟩
      · rintro rfl
        have hg95 : g'.1 = 95 := hupper.symm
        exact h95 ⟨g'.2, hg95 ▸ hg'⟩

/-- The groups partition the rows of a table if and only if it is groupable, and the connection is
clean if there is a row to show. -/
theorem partitions_iff (table : Database → Table NameRow)
    (hids : ((table w.db).rows.map Prod.fst).Nodup)
    (hshows : ShowsPattern (table w.db).rows startsWith dbId w) :
    Partitions (table w.db).rows (starting table) startsWith dbId w ↔
      Groupable (table w.db).rows ∧ Clean (table w.db).rows w :=
  ⟨Partitions.groupable hids hshows, fun h => h.1.partitions hids hshows h.2⟩

end

/-- The groups partition the artists, and the albums, if and only if each name begins with its first
character, of one byte and neither `%` nor `_`; or all names begin with `_`, or all with `%`. -/
theorem starting_chars_iff (w : World) :
    (Partitions w.db.artists.rows Artist.startingChars Artist.nameStartsWith Artist.dbId w ↔
      Groupable w.db.artists.rows ∧ Clean w.db.artists.rows w) ∧
    (Partitions w.db.albums.rows Album.startingChars Album.nameStartsWith (fun a => a.1.dbId) w ↔
      Groupable w.db.albums.rows ∧ Clean w.db.albums.rows w) := by
  constructor
  · have hshows : ShowsPattern w.db.artists.rows Artist.nameStartsWith Artist.dbId w :=
      showsPattern Database.artists (fun _ r => Artist.ofRow r.1 r.2) Artist.name
        (fun _ _ => rfl) fun _ _ => rfl
    exact partitions_iff Database.artists w.db.artists.nodup_rowids hshows
  · have hshows : ShowsPattern w.db.albums.rows Album.nameStartsWith (fun a => a.1.dbId) w :=
      showsPattern Database.albums
        (fun db r => (Album.ofRow r.1 r.2, db.songs.count fun _ s => s.albumId == r.1))
        (fun a => a.1.name) (fun _ _ => rfl) fun _ _ => rfl
    exact partitions_iff Database.albums w.db.albums.nodup_rowids hshows

/-- A database with one artist. -/
def oneArtist (name : Text) : Database := { Database.empty with artists := .single 1 ⟨name⟩ }

omit [Affinity] in
/-- A name that begins with a character of two bytes. -/
theorem starting_chars_two_bytes : ∃ _ : Affinity,
    ¬Partitions (oneArtist (.ofLiteral [0xC3, 0x89] rfl)).artists.rows Artist.startingChars
      Artist.nameStartsWith Artist.dbId (.start (oneArtist (.ofLiteral [0xC3, 0x89] rfl))) := by
  let _ := integerAffinity
  refine ⟨integerAffinity, ?_⟩
  rintro ⟨groups, hstarts, -⟩
  have hstarts' : Returns (starting Database.artists)
      (.start (oneArtist (.ofLiteral [0xC3, 0x89] rfl))) groups _ := hstarts
  obtain ⟨-, hmap⟩ := starting_returns_iff.mp hstarts'
  have hgroup : ([0xC3, 0x89], 1) ∈ startingGroups
      (oneArtist (.ofLiteral [0xC3, 0x89] rfl)).artists.rows :=
    mem_startingGroups.mpr ⟨by decide, by decide +kernel, by decide +kernel⟩
  obtain ⟨b, -, heq⟩ := List.mem_map.mp (hmap ▸ hgroup)
  cases (List.cons.inj (congrArg Prod.fst heq)).2

end Spinny

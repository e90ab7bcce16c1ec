import Spinny.Sqlite.Schema

/-!
# `check_and_create_tables`

The loop over the registered descriptions, on the tables of a file. Whether a table is there is
asked of `sqlite_master`; the columns of a table that is there are not looked at.

* `TableDescription`: a description with its `checked_callback`.
* `checkTable`: what the loop does with one description; `Checked`: what it leaves.
* `checked_all`: what the loop leaves; `again`: a second loop changes nothing.
* `loop_returns`: files that the loop does not raise on.
-/

namespace Sqlite

open Bytes Boost Proc

/-- Code that works on a file. -/
abbrev OnFile := Proc Schema Error

/-- A `table::description`. `κ` is what its `checked_callback` reads beside the file. -/
structure TableDescription (κ : Type) extends Description where
  fieldTypes : List Bytes
  /-- The object that `checked_callback` saves if the table is empty; none for the
  `checked_callback` of the base class. -/
  first : Option (κ → Schema → Option Saved)

variable [Affinity] {κ : Type}

/-- The table as the loop creates it. -/
def TableDescription.fresh (d : TableDescription κ) : StoredTable :=
  .created d.tableName (d.fields.zip d.fieldTypes)

/-- `exec<none>()`. -/
def execText (text : Bytes) : OnFile Unit := do
  match (← get).exec text with
  | some sc => set sc
  | none => throw .database

/-- A `checked_callback` that saves an object into an empty table. -/
def saveFirst (td : Description) (make : Schema → Option Saved) : OnFile Unit := do
  match (← get).count td.tableName with
  | none => throw .database
  | some n =>
    if n = 0 then
      match make (← get) with
      | none => throw .database
      | some obj => execText (saveText td obj)
    else pure ()

/-- `checked_callback`. -/
def TableDescription.checkedCallback (d : TableDescription κ) (c : κ) (_created : Bool) :
    OnFile Unit :=
  match d.first with
  | none => pure ()
  | some make => saveFirst d.toDescription (make c)

/-- The table of a description is created where it was not found. -/
def createMissing (d : TableDescription κ) (found : Bool) : OnFile Unit :=
  if found then pure () else execText (createText d.tableName (d.fields.zip d.fieldTypes))

/-- The body of the loop. -/
def checkTable (c : κ) (d : TableDescription κ) : OnFile Unit := do
  let res := (← get).listed d.tableName
  createMissing d res
  d.checkedCallback c (!res)

/-- `check_and_create_tables`, with the list of `register_db_table_check`. -/
def checkAndCreateTables (c : κ) (tables : List (TableDescription κ)) : OnFile Unit :=
  tables.forM (checkTable c)

/-- The names of a description are names to SQLite, and its first object has values. -/
structure TableDescription.Sound (d : TableDescription κ) : Prop where
  columns : d.toDescription.Columns d.fieldTypes
  types : ∀ ty ∈ d.fieldTypes, isField ty = true
  values : ∀ make, d.first = some make → ∀ c sc obj, make c sc = some obj →
    obj.dbId = 0 ∧ ∃ vs, vs ≠ [] ∧ obj.tableInsertValues = joinWith 44 (vs.map Literal.sql)

/-- The first object has its values for the table that was just created, and no NUL in them. -/
def TableDescription.Startable (d : TableDescription κ) (c : κ) : Prop :=
  ∀ make, d.first = some make → ∀ sc : Schema, sc.find d.tableName = some d.fresh →
    ∃ (obj : Saved) (vs : List Literal), make c sc = some obj ∧ obj.dbId = 0 ∧
      obj.tableInsertValues = joinWith 44 (vs.map Literal.sql) ∧
      d.fields.length = vs.length ∧ vs.all Literal.clean = true

/-! ## One description -/

section

variable {c : κ} {d : TableDescription κ} {sc sc' : Schema} {text : Bytes}

theorem execText_returns : Returns (execText text) sc () sc' ↔ sc.exec text = some sc' := by
  unfold execText
  constructor
  · rintro ⟨hout, hafter⟩
    rw [outcome_bind_ok (outcome_get sc), after_get] at hout
    rw [after_bind_ok (outcome_get sc), after_get] at hafter
    cases h : sc.exec text with
    | none =>
      rw [h] at hout
      cases hout
    | some sc₁ =>
      rw [h] at hafter
      exact congrArg some hafter
  · intro h
    refine Returns.bind (a := sc) ⟨rfl, rfl⟩ ?_
    rw [h]
    exact ⟨rfl, rfl⟩

/-- The texts that are streamed, as SQLite reads them. -/
theorem exec_createText (h : d.Sound) (sc : Schema) :
    sc.exec (createText d.tableName (d.fields.zip d.fieldTypes)) =
      sc.create d.tableName (d.fields.zip d.fieldTypes) := by
  have hne : d.fields.zip d.fieldTypes ≠ [] := by
    intro he
    have hlen := congrArg List.length he
    rw [List.length_zip, ← h.columns.length_types, Nat.min_self] at hlen
    exact h.columns.fields_ne (List.eq_nil_of_length_eq_zero hlen)
  have hcols : ∀ x ∈ d.fields.zip d.fieldTypes, isField x.1 = true ∧ isField x.2 = true :=
    fun x hx => ⟨h.columns.fields _ (List.of_mem_zip hx).1, h.types _ (List.of_mem_zip hx).2⟩
  unfold Schema.exec
  rw [parse_create h.columns.tableName hcols hne]

omit [Affinity] in
/-- A description has the columns that its table is created with. -/
theorem fresh_has (h : d.Sound) : d.fresh.has d.fields = true := by
  unfold StoredTable.has
  refine List.all_eq_true.mpr fun f hf => ?_
  obtain ⟨x, hx, rfl⟩ : ∃ x ∈ d.fields.zip d.fieldTypes, x.1 = f := by
    rw [← List.map_fst_zip h.columns.length_types.le] at hf
    exact List.mem_map.mp hf
  refine List.any_eq_true.mpr ⟨⟨x.1, x.2, .null⟩, ?_, beq_self_eq_true _⟩
  exact List.mem_map.mpr ⟨x, hx, rfl⟩

/-- What a description finds in a file that was checked for it. -/
structure Served (d : TableDescription κ) (sc : Schema) : Prop where
  listed : sc.listed d.tableName = true
  filled : d.first.isSome = true → ∃ n, sc.count d.tableName = some n ∧ n ≠ 0

/-- What the loop leaves of one description. -/
structure Checked (d : TableDescription κ) (sc sc' : Schema) : Prop where
  touches : Schema.Touches d.tableName sc sc'
  served : Served d sc'
  created : sc.find d.tableName = none →
    ∃ t, sc'.find d.tableName = some t ∧ d.fresh.Extends t ∧ (d.first = none → t = d.fresh)

theorem createMissing_touches (h : d.Sound)
    (hret : Returns (createMissing d (sc.listed d.tableName)) sc () sc') :
    Schema.Touches d.tableName sc sc' ∧ sc'.listed d.tableName = true ∧
      (sc.find d.tableName = none → sc'.find d.tableName = some d.fresh) := by
  unfold createMissing at hret
  split at hret
  · rename_i hlisted
    obtain rfl : sc = sc' := hret.after
    obtain ⟨t, ht, -⟩ := Schema.listed_iff.mp hlisted
    exact ⟨.refl _ _, hlisted, fun hnone => absurd (ht.symm.trans hnone) (by simp)⟩
  · rw [execText_returns, exec_createText h] at hret
    obtain ⟨htouches, hfind⟩ := Schema.create_touches hret
    exact ⟨htouches, Schema.listed_iff.mpr ⟨_, hfind, rfl⟩, fun _ => hfind⟩

theorem exec_saveText (h : d.Sound) {make : κ → Schema → Option Saved} (hfirst : d.first = some make)
    {obj : Saved} {sc₀ : Schema} (hobj : make c sc₀ = some obj)
    (hexec : sc.exec (saveText d.toDescription obj) = some sc') :
    ∃ row, sc' = sc.addRow d.tableName row := by
  obtain ⟨hid, vs, hne, hvs⟩ := h.values make hfirst c sc₀ obj hobj
  unfold Schema.exec at hexec
  rw [parse_insert h.columns.toNamed hid hvs hne] at hexec
  split_ifs at hexec
  · unfold Schema.insert at hexec
    obtain ⟨t, -, hinsert⟩ := Option.bind_eq_some_iff.mp hexec
    split_ifs at hinsert
    exact ⟨_, (Option.some.inj hinsert).symm⟩

theorem saveFirst_touches (h : d.Sound) {make : κ → Schema → Option Saved}
    (hfirst : d.first = some make) (hlisted : sc.listed d.tableName = true)
    (hret : Returns (saveFirst d.toDescription (make c)) sc () sc') :
    Schema.Touches d.tableName sc sc' ∧ Served d sc' := by
  obtain ⟨t, ht, hname⟩ := Schema.listed_iff.mp hlisted
  have hcount : sc.count d.tableName = some (Int32.ofNat t.rows.rows.length) := by
    rw [Schema.count, ht, Option.map_some]
  obtain ⟨hout, hafter⟩ := hret
  unfold saveFirst at hout hafter
  rw [outcome_bind_ok (outcome_get sc), after_get] at hout
  rw [after_bind_ok (outcome_get sc), after_get] at hafter
  simp only [hcount] at hout hafter
  by_cases hn : Int32.ofNat t.rows.rows.length = 0
  · simp only [if_pos hn] at hout hafter
    rw [outcome_bind_ok (outcome_get sc), after_get] at hout
    rw [after_bind_ok (outcome_get sc), after_get] at hafter
    cases hobj : make c sc with
    | none =>
      rw [hobj] at hout
      cases hout
    | some obj =>
      rw [hobj] at hout hafter
      obtain ⟨row, rfl⟩ := exec_saveText h hfirst hobj (execText_returns.mp ⟨hout, hafter⟩)
      have hfind := Schema.find_addRow ht row
      refine ⟨Schema.addRow_touches _ _ _, Schema.listed_iff.mpr ⟨_, hfind, hname⟩, fun _ => ?_⟩
      -- a count that is 0 as an `int` is 1 with the new row
      refine ⟨1, ?_, by decide⟩
      rw [Schema.count, hfind, Option.map_some]
      have hlen : (t.rows.insert row).rows.length = t.rows.rows.length + 1 := by simp
      rw [hlen, Int32.ofNat_add, hn]
      rfl
  · simp only [if_neg hn] at hafter
    obtain rfl : sc = sc' := hafter
    exact ⟨.refl _ _, hlisted, fun _ => ⟨_, hcount, hn⟩⟩

/-- **One description.** -/
theorem checkTable_checked (h : d.Sound) (hret : Returns (checkTable c d) sc () sc') :
    Checked d sc sc' := by
  obtain ⟨hout, hafter⟩ := hret
  unfold checkTable at hout hafter
  rw [outcome_bind_ok (outcome_get sc), after_get] at hout
  rw [after_bind_ok (outcome_get sc), after_get] at hafter
  dsimp only at hout hafter
  obtain ⟨u, hmissing, hout⟩ := bind_eq_ok.mp hout
  rw [after_bind_ok hmissing] at hafter
  obtain ⟨htouches, hlisted, hcreated⟩ := createMissing_touches h ⟨hmissing, rfl⟩
  unfold TableDescription.checkedCallback at hout hafter
  cases hfirst : d.first with
  | none =>
    rw [hfirst] at hafter
    obtain rfl : _ = sc' := hafter
    refine ⟨htouches, ⟨hlisted, fun hsome => absurd hsome (by simp [hfirst])⟩, fun hnone => ?_⟩
    exact ⟨d.fresh, hcreated hnone, ⟨rfl, rfl, List.prefix_refl _⟩, fun _ => rfl⟩
  | some make =>
    rw [hfirst] at hout hafter
    obtain ⟨htouches', hserved⟩ := saveFirst_touches h hfirst hlisted ⟨hout, hafter⟩
    refine ⟨htouches.trans htouches', hserved, fun hnone => ?_⟩
    obtain ⟨t, ht, hext⟩ := htouches'.within.find (hcreated hnone)
    exact ⟨t, ht, hext, fun h => absurd h (by simp [hfirst])⟩

/-- A file that was checked for a description stays as it is. -/
theorem checkTable_served (h : Served d sc) : Returns (checkTable c d) sc () sc := by
  have hcallback : Returns (d.checkedCallback c (!sc.listed d.tableName)) sc () sc := by
    unfold TableDescription.checkedCallback
    cases hfirst : d.first with
    | none => exact Returns.pure _ _
    | some make =>
      obtain ⟨n, hcount, hn⟩ := h.filled (by rw [hfirst]; rfl)
      refine Returns.bind (a := sc) ⟨rfl, rfl⟩ ?_
      rw [hcount]
      dsimp only
      rw [if_neg hn]
      exact Returns.pure _ _
  refine Returns.bind (a := sc) ⟨rfl, rfl⟩ (Returns.bind (a := ()) ?_ hcallback)
  unfold createMissing
  rw [if_pos h.listed]
  exact Returns.pure _ _

omit [Affinity] in
/-- A statement on another table leaves it checked. -/
theorem Served.of_find (h : Served d sc) (hfind : sc'.find d.tableName = sc.find d.tableName) :
    Served d sc' := by
  obtain ⟨t, ht, hname⟩ := Schema.listed_iff.mp h.listed
  refine ⟨Schema.listed_iff.mpr ⟨t, hfind.trans ht, hname⟩, fun hsome => ?_⟩
  obtain ⟨n, hcount, hn⟩ := h.filled hsome
  refine ⟨n, ?_, hn⟩
  rw [Schema.count, hfind]
  exact hcount

/-- A table that is not there can be created. -/
theorem checkTable_created (h : d.Sound) (hstart : d.Startable c)
    (hnone : sc.find d.tableName = none) : ∃ sc', Returns (checkTable c d) sc () sc' := by
  have hlisted : sc.listed d.tableName = false := by
    refine Bool.eq_false_iff.mpr fun hl => ?_
    obtain ⟨t, ht, -⟩ := Schema.listed_iff.mp hl
    exact absurd (ht.symm.trans hnone) (by simp)
  obtain ⟨sc₁, hcreate⟩ : ∃ sc₁, sc.create d.tableName (d.fields.zip d.fieldTypes) = some sc₁ := by
    unfold Schema.create
    rw [dif_pos hnone]
    exact ⟨_, rfl⟩
  obtain ⟨-, hfind⟩ := Schema.create_touches hcreate
  have hmissing : Returns (createMissing d (sc.listed d.tableName)) sc () sc₁ := by
    unfold createMissing
    rw [hlisted, if_neg Bool.false_ne_true, execText_returns, exec_createText h]
    exact hcreate
  suffices hcallback : ∃ sc', Returns (d.checkedCallback c (!sc.listed d.tableName)) sc₁ () sc' by
    obtain ⟨sc', hcallback⟩ := hcallback
    exact ⟨sc', Returns.bind (a := sc) ⟨rfl, rfl⟩ (hmissing.bind hcallback)⟩
  unfold TableDescription.checkedCallback
  cases hfirst : d.first with
  | none => exact ⟨sc₁, Returns.pure _ _⟩
  | some make =>
    obtain ⟨obj, vs, hobj, hid, hvs, hlen, hclean⟩ := hstart make hfirst sc₁ hfind
    have hne : vs ≠ [] := by
      rintro rfl
      exact h.columns.fields_ne (List.eq_nil_of_length_eq_zero hlen)
    have hcount : sc₁.count d.tableName = some 0 := by
      rw [Schema.count, hfind]
      rfl
    obtain ⟨sc', hexec⟩ : ∃ sc', sc₁.exec (saveText d.toDescription obj) = some sc' := by
      unfold Schema.exec
      rw [parse_insert h.columns.toNamed hid hvs hne, if_pos hclean]
      dsimp only
      unfold Schema.insert
      rw [hfind, Option.bind_some, if_pos ⟨hlen, fresh_has h, rfl⟩]
      exact ⟨_, rfl⟩
    refine ⟨sc', Returns.bind (a := sc₁) ⟨rfl, rfl⟩ ?_⟩
    rw [hcount]
    refine Returns.bind (a := sc₁) ⟨rfl, rfl⟩ ?_
    rw [hobj]
    exact execText_returns.mpr hexec

/-! ## All descriptions -/

/-- What the loop leaves. -/
structure CheckedAll (tables : List (TableDescription κ)) (sc sc' : Schema) : Prop where
  within : Schema.Within sc sc'
  served : ∀ d ∈ tables, Served d sc'
  created : ∀ d ∈ tables, sc.find d.tableName = none →
    ∃ t, sc'.find d.tableName = some t ∧ d.fresh.Extends t ∧ (d.first = none → t = d.fresh)
  others : ∀ other, (∀ d ∈ tables, lower other ≠ lower d.tableName) →
    sc'.find other = sc.find other

/-- **The loop**, for descriptions of different tables: what is created for one is not touched for
another. -/
theorem checked_all {tables : List (TableDescription κ)} (hsound : ∀ d ∈ tables, d.Sound)
    (hnames : tables.Pairwise fun d e => lower d.tableName ≠ lower e.tableName)
    (hret : Returns (checkAndCreateTables c tables) sc () sc') : CheckedAll tables sc sc' := by
  induction tables generalizing sc with
  | nil =>
    obtain rfl : sc = sc' := hret.after
    exact ⟨.refl sc, by simp, by simp, fun _ _ => rfl⟩
  | cons d ds ih =>
    obtain ⟨hd, hds⟩ := List.forall_mem_cons.mp hsound
    obtain ⟨hne, hnames⟩ := List.pairwise_cons.mp hnames
    obtain ⟨hout, hafter⟩ := hret
    unfold checkAndCreateTables at hout hafter
    rw [forM_cons] at hout hafter
    obtain ⟨u, hone, hout⟩ := bind_eq_ok.mp hout
    rw [after_bind_ok hone] at hafter
    have hchecked := checkTable_checked hd ⟨hone, rfl⟩
    have hrest := ih hds hnames ⟨hout, hafter⟩
    -- the descriptions behind `d` leave its table, and `d` leaves theirs
    have hfind := hrest.others d.tableName fun e he => hne e he
    have hbefore : ∀ e ∈ ds, _ = sc.find e.tableName := fun e he =>
      hchecked.touches.others e.tableName (Ne.symm (hne e he))
    refine ⟨hchecked.touches.within.trans hrest.within, ?_, ?_, fun other ho => ?_⟩
    · exact List.forall_mem_cons.mpr ⟨hchecked.served.of_find hfind, hrest.served⟩
    · refine List.forall_mem_cons.mpr ⟨fun hnone => ?_, fun e he hnone => ?_⟩
      · rw [hfind]
        exact hchecked.created hnone
      · exact hrest.created e he ((hbefore e he).trans hnone)
    · obtain ⟨hod, hods⟩ := List.forall_mem_cons.mp ho
      exact (hrest.others other hods).trans (hchecked.touches.others other hod)

/-- **A second loop** changes nothing. -/
theorem again {tables : List (TableDescription κ)} (h : ∀ d ∈ tables, Served d sc) :
    Returns (checkAndCreateTables c tables) sc () sc := by
  induction tables with
  | nil => exact Returns.pure _ _
  | cons d ds ih =>
    obtain ⟨hd, hds⟩ := List.forall_mem_cons.mp h
    exact (checkTable_served hd).bind (ih hds)

/-- The loop returns where each table is not there or was checked before. -/
theorem loop_returns {tables : List (TableDescription κ)} (hsound : ∀ d ∈ tables, d.Sound)
    (hnames : tables.Pairwise fun d e => lower d.tableName ≠ lower e.tableName)
    (hstart : ∀ d ∈ tables, d.Startable c)
    (h : ∀ d ∈ tables, sc.find d.tableName = none ∨ Served d sc) :
    ∃ sc', Returns (checkAndCreateTables c tables) sc () sc' := by
  induction tables generalizing sc with
  | nil => exact ⟨sc, Returns.pure _ _⟩
  | cons d ds ih =>
    obtain ⟨hd, hds⟩ := List.forall_mem_cons.mp hsound
    obtain ⟨hne, hnames⟩ := List.pairwise_cons.mp hnames
    obtain ⟨hdstart, hdsstart⟩ := List.forall_mem_cons.mp hstart
    obtain ⟨hdsc, hdssc⟩ := List.forall_mem_cons.mp h
    obtain ⟨sc₁, hone⟩ : ∃ sc₁, Returns (checkTable c d) sc () sc₁ := by
      rcases hdsc with hnone | hserved
      · exact checkTable_created hd hdstart hnone
      · exact ⟨sc, checkTable_served hserved⟩
    have hothers := (checkTable_checked hd hone).touches.others
    have hleft : ∀ e ∈ ds, sc₁.find e.tableName = none ∨ Served e sc₁ := by
      intro e he
      have hfind := hothers e.tableName (Ne.symm (hne e he))
      exact (hdssc e he).imp hfind.trans fun hserved => hserved.of_find hfind
    obtain ⟨sc', hrest⟩ := ih hds hnames hdsstart hleft
    exact ⟨sc', hone.bind hrest⟩

end

end Sqlite

import Spinny.Sqlite.Statements
import Spinny.Lib.Table

/-!
# An engine that stores

The four statements on tables that have columns with a declared type.

* `affinityType`, `stored`: the affinity a column gets from its declared type, and what it makes of
  a literal.
* `Store.exec`: a statement on a store; `engine`: SQLite on the texts of statements.
* `saveAndLoad`: `save` of a new object and `load` of its rowid on one connection.
-/

namespace Sqlite

open Bytes Boost Proc

/-! ## Numbers in texts -/

/-- A text that goes on with a letter other than `e` behind its digits is no number. -/
theorem isNumber_digits_alpha {ds : Bytes} (hds : ∀ b ∈ ds, isDigit b = true) (hne : ds ≠ [])
    {b : UInt8} (hb : isAlpha b = true) (he : b ≠ 101 ∧ b ≠ 69) (s : Bytes) :
    isNumber (ds ++ b :: s) = false := by
  obtain ⟨d, ds, rfl⟩ := List.exists_cons_of_ne_nil hne
  have hb' : isDigit b = false := (alpha_cases hb).2.2.2.2.2.2.2.1
  have hdrop : (ds ++ b :: s).dropWhile isDigit = b :: s := by
    rw [List.dropWhile_append_of_pos fun b hb => hds b (by simp [hb]),
      List.dropWhile_cons_of_neg (by simp [hb'])]
  have hrest : isNumberRest (b :: s) = false := by
    have hdot : b ≠ 46 := by
      rintro rfl
      exact absurd hb (by decide)
    unfold isNumberRest
    split
    · rename_i heq
      exact absurd (List.cons.inj heq).1 hdot
    · simp [isNumberRest.isExponent, he.1, he.2]
  rw [isNumber, List.cons_append, unsigned_of_digit _ (hds d (by simp))]
  simp only [hdrop, hrest, Bool.and_false]

/-! ## Columns and values -/

/-- What a column does with a literal. The affinities INTEGER, REAL and NUMERIC convert texts
alike. -/
inductive ColumnAffinity where
  | text
  | none
  | numeric
  deriving DecidableEq

/-- `sqlite3AffinityType`, with the last bytes read, in lower case and the latest first. -/
def affinityFrom (last : Bytes) (aff : ColumnAffinity) : Bytes → ColumnAffinity
  | [] => aff
  | b :: s =>
    let last := (lowerAscii b :: last).take 4
    if last = (lit "char").reverse ∨ last = (lit "clob").reverse ∨ last = (lit "text").reverse then
      affinityFrom last .text s
    else if last = (lit "blob").reverse ∧ aff = .numeric then affinityFrom last .none s
    else if last.take 3 = (lit "int").reverse then .numeric
    else affinityFrom last aff s

/-- The affinity of a column with the declared type `ty`. -/
def affinityType (ty : Bytes) : ColumnAffinity := affinityFrom [] .numeric ty

example : affinityType (lit "string") = .numeric := by decide

example : affinityType (lit "varchar(20)") = .text := by decide

/-- A stored value. -/
inductive Value where
  | null
  | int (n : Int)
  | real (r : Double)
  | text (t : Bytes)
  deriving DecidableEq

/-- The value of a cell of a column with the affinity NUMERIC. -/
def Value.ofCell : Cell → Value
  | .integer n => .int n
  | .real r => .real r
  | .text t => .text t

section

variable [Affinity]

/-- A literal in a column. -/
def stored : ColumnAffinity → Literal → Value
  | .text, .int n => .text (showInt n)
  | _, .int n => .int n
  | .numeric, .text t => .ofCell (store t)
  | _, .text t => .text t

/-! ## Reading a row -/

/-- The text of a value that is no NULL. -/
def Value.toText : Value → Option Bytes
  | .null => none
  | .int n => some (showInt n)
  | .real r => some (printDouble r)
  | .text t => some t

@[simp] theorem Value.toText_ofCell (c : Cell) : (ofCell c).toText = some c.print := by
  cases c <;> rfl

/-- `reader::get<std::string>`: nothing beyond the last column or for a NULL. -/
def getString (row : List Value) (i : Nat) : Option Bytes := row[i]?.bind Value.toText

/-- `sqlite3VdbeIntValue`. -/
def Value.toInt : Value → Int
  | .null => 0
  | .int n => n
  | .real r => (ofDouble r).toInt
  | .text t => (atoi64 t).1

/-- `reader::get<sqlite::id_t>`. -/
def getId (row : List Value) (i : Nat) : Option Int64 := row[i]?.map fun v => Int64.ofInt v.toInt

/-- `reader::get<int>`: `sqlite3_column_int` cuts the integer to 32 bits. -/
def getInt (row : List Value) (i : Nat) : Option Int32 := row[i]?.map fun v => Int32.ofInt v.toInt

end

/-! ## Statements on a store -/

/-- A table: its columns with their declared types, and its rows. -/
structure Relation where
  columns : List (Bytes × Bytes)
  rows : Table (List Value)

/-- The tables by name, and the rowid of the latest new row. -/
structure Store where
  tables : Bytes → Option Relation
  insertId : Int

variable [Affinity]

/-- The row of an `insert`. -/
def Relation.newRow (r : Relation) (assigned : List (Bytes × Literal)) : List Value :=
  r.columns.map fun c =>
    match assigned.lookup c.1 with
    | some l => stored (affinityType c.2) l
    | none => .null

/-- A row after an `update`. -/
def Relation.changedRow (r : Relation) (assigned : List (Bytes × Literal)) (row : List Value) :
    List Value :=
  List.zipWith (fun c v =>
    match assigned.reverse.lookup c.1 with
    | some l => stored (affinityType c.2) l
    | none => v) r.columns row

/-- The column of a row that a name denotes. -/
def Relation.column (r : Relation) (id : Int) (row : List Value) (f : Bytes) : Option Value :=
  match ((r.columns.map (·.1)).zip row).lookup f with
  | some v => some v
  | none => if f = lit "rowid" then some (.int id) else none

/-- The table has all these columns. -/
def Relation.has (r : Relation) (fs : List Bytes) : Bool :=
  fs.all fun f => (r.columns.map (·.1)).contains f

/-- The rowid that a literal is compared as. -/
def Literal.rowid : Literal → Option Int
  | .int n => some n
  | .text t => toId t

/-- The store with another table. -/
def Store.set (s : Store) (t : Bytes) (r : Relation) : Store :=
  { s with tables := fun u => if u = t then some r else s.tables u }

/-- A statement on a store: the store it leaves and its rows, or an error when it is prepared. -/
def Store.exec (s : Store) : Statement → Option (Store × List (List Value))
  | .create t cols =>
    match s.tables t with
    | some _ => none
    | none => some (s.set t ⟨cols, .empty⟩, [])
  | .insert t fs vs =>
    (s.tables t).bind fun r =>
      if fs.length = vs.length ∧ r.has fs then
        some ({ s.set t ⟨r.columns, r.rows.insert (r.newRow (fs.zip vs))⟩ with
          insertId := r.rows.nextId }, [])
      else none
  | .update t as id =>
    (s.tables t).bind fun r =>
      if r.has (as.map (·.1)) then
        some (s.set t ⟨r.columns, r.rows.updateWhere (fun i _ => some i == id.rowid)
          (r.changedRow as)⟩, [])
      else none
  | .load fs t id =>
    (s.tables t).bind fun r =>
      match id.rowid.bind fun i => (r.rows.lookup i).map fun row => (i, row) with
      | some (i, row) => (fs.mapM (r.column i row)).map fun vs => (s, [vs])
      | none => some (s, [])

/-- SQLite on the texts it is given. -/
def engine : Engine Store (List Value) where
  prepare s text := ((parse text).bind s.exec).isSome
  run s text := ((parse text).bind s.exec).elim (s, some []) fun r => (r.1, some r.2)

theorem run_isSome (s : Store) (t : Bytes) : (engine.run s t).2.isSome = true := by
  simp only [engine]
  cases (parse t).bind s.exec <;> rfl

/-! ## Saving and loading -/

/-- `insertid`. -/
def insertId : Con Store Int := do return ((← get).db.map (·.insertId)).getD 0

/-- `save` of an object and `load` of the rowid it got. -/
def saveAndLoad (td : Description) (obj : Saved) : Con Store (List Value) := do
  save engine td obj
  load engine td (← insertId)

section

variable {c : Connection Store} {s s' : Store} {rows : List (List Value)}

/-- A statement that SQLite accepts on an open connection. -/
theorem exec_engine (hdb : c.db = some s) (h : (parse c.buffer).bind s.exec = some (s', rows)) :
    outcome (exec engine) c = .ok rows.head? ∧
      after (exec engine) c = ⟨[], some s', c.buffer :: c.prepared⟩ := by
  have hacc : c.accepts engine = true := by simp [Connection.accepts, hdb, engine, h]
  have hvalid : outcome validateDb c = .ok () ∧ after validateDb c = c := by
    rcases c with ⟨b, _ | d, ts⟩
    · cases hdb
    · exact ⟨rfl, rfl⟩
  have hopen : c.db.isSome = true := by rw [hdb]; rfl
  have hcmd : outcome (command engine) c = .ok ⟨c.buffer⟩ := by
    rw [outcome_command engine hopen, if_pos hacc]
  have hread : outcome (Command.read engine ⟨c.buffer⟩) ⟨[], some s, c.buffer :: c.prepared⟩ =
      .ok rows ∧
      after (Command.read engine ⟨c.buffer⟩) ⟨[], some s, c.buffer :: c.prepared⟩ =
        ⟨[], some s', c.buffer :: c.prepared⟩ := by
    have hrun : engine.run s c.buffer = (s', some rows) := by simp [engine, h]
    simp only [Command.read]
    rw [outcome_bind_ok (outcome_get _), after_bind_ok (outcome_get _), after_get]
    simp only [hrun]
    rw [outcome_bind_ok (outcome_modify _ _), after_bind_ok (outcome_modify _ _), after_modify]
    exact ⟨rfl, rfl⟩
  have hafter : after (command engine) c = ⟨[], some s, c.buffer :: c.prepared⟩ := by
    rw [after_command engine hopen, hdb]
  rw [exec, outcome_bind_ok hvalid.1, after_bind_ok hvalid.1, hvalid.2, outcome_bind_ok hcmd,
    after_bind_ok hcmd, hafter, outcome_bind_ok hread.1, after_bind_ok hread.1, hread.2]
  exact ⟨rfl, rfl⟩

/-- `save` streams its text and executes it. -/
theorem save_engine {td : Description} {obj : Saved} (hdb : c.db = some s) (hbuf : c.buffer = [])
    (h : (parse (saveText td obj)).bind s.exec = some (s', rows)) :
    outcome (save engine td obj) c = .ok () ∧
      after (save engine td obj) c = ⟨[], some s', saveText td obj :: c.prepared⟩ := by
  set c' : Connection Store := { c with buffer := saveText td obj } with hc'
  obtain ⟨ho, ha⟩ := exec_engine (c := c') hdb h
  have hsave : outcome (save engine td obj) c = outcome (exec engine >>= fun _ => pure ()) c' ∧
      after (save engine td obj) c = after (exec engine >>= fun _ => pure ()) c' := by
    simp only [save, saveText, hc']
    split <;> simp [hbuf, List.append_assoc]
  rw [hsave.1, hsave.2, outcome_bind_ok ho, after_bind_ok ho, ha]
  exact ⟨rfl, rfl⟩

end

/-! ## The row of a new object -/

omit [Affinity] in
theorem lookup_cons_ne {α : Type} {f g : Bytes} (h : g ≠ f) (v : α) (l : List (Bytes × α)) :
    ((f, v) :: l).lookup g = l.lookup g := by
  rw [List.lookup_cons, beq_false_of_ne h]

omit [Affinity] in
/-- Each name finds its own value. -/
theorem map_lookup_zip {α : Type} {fs : List Bytes} {vs : List α} (hn : fs.Nodup)
    (hlen : fs.length = vs.length) : fs.map (fun f => (fs.zip vs).lookup f) = vs.map some := by
  induction fs generalizing vs with
  | nil => simp [List.eq_nil_of_length_eq_zero hlen.symm]
  | cons f fs ih =>
    obtain ⟨v, vs, rfl⟩ := List.exists_cons_of_length_pos (hlen ▸ Nat.succ_pos _ : 0 < vs.length)
    obtain ⟨hf, hn⟩ := List.nodup_cons.mp hn
    have htail : fs.map (fun g => ((f, v) :: fs.zip vs).lookup g) =
        fs.map fun g => (fs.zip vs).lookup g :=
      List.map_congr_left fun g hg => lookup_cons_ne (ne_of_mem_of_not_mem hg hf) v _
    rw [List.zip_cons_cons, List.map_cons, htail, ih hn (by simpa using hlen)]
    simp

omit [Affinity] in
theorem mapM_of_map {α β : Type} {f : α → Option β} {l : List α} {vs : List β}
    (h : l.map f = vs.map some) : l.mapM f = some vs := by
  have hid : l.mapM f = (l.map f).mapM id := by rw [List.mapM_map]; rfl
  rw [hid, h, List.mapM_map]
  simpa using List.mapM_pure (m := Option) (f := id) (l := vs)

/-- The row of an `insert` that names every column. -/
theorem newRow_zip {r : Relation} {fs tys : List Bytes} {vs : List Literal}
    (hcols : r.columns = fs.zip tys) (hn : fs.Nodup) (ht : fs.length = tys.length)
    (hv : fs.length = vs.length) :
    r.newRow (fs.zip vs) = List.zipWith (fun ty l => stored (affinityType ty) l) tys vs := by
  rw [Relation.newRow, hcols]
  clear hcols
  have hmap : ∀ l : List (Bytes × Literal), ∀ c : Bytes × Bytes,
      (match l.lookup c.1 with
        | some l => stored (affinityType c.2) l
        | none => Value.null) =
        ((l.lookup c.1).map (stored (affinityType c.2))).getD .null := by
    intro l c
    cases l.lookup c.1 <;> rfl
  simp only [hmap]
  induction fs generalizing tys vs with
  | nil =>
    obtain rfl := List.eq_nil_of_length_eq_zero ht.symm
    rfl
  | cons f fs ih =>
    obtain ⟨v, vs, rfl⟩ := List.exists_cons_of_length_pos (hv ▸ Nat.succ_pos _ : 0 < vs.length)
    obtain ⟨ty, tys, rfl⟩ := List.exists_cons_of_length_pos (ht ▸ Nat.succ_pos _ : 0 < tys.length)
    obtain ⟨hf, hn⟩ := List.nodup_cons.mp hn
    have ht' : fs.length = tys.length := by simpa using ht
    have hv' : fs.length = vs.length := by simpa using hv
    have htail := ih hn ht' hv'
    simp only [List.zip_cons_cons, List.map_cons, List.zipWith_cons_cons, ← htail]
    congr 1
    · simp
    · refine List.map_congr_left fun c hc => ?_
      rw [lookup_cons_ne (ne_of_mem_of_not_mem (List.of_mem_zip hc).1 hf)]

omit [Affinity] in
/-- The columns of a table, read by their names. -/
theorem mapM_column {r : Relation} {fs : List Bytes} {row : List Value} (id : Int)
    (hcols : r.columns.map (·.1) = fs) (hn : fs.Nodup) (hrow : lit "rowid" ∉ fs)
    (hlen : fs.length = row.length) :
    (fs ++ [lit "rowid"]).mapM (r.column id row) = some (row ++ [.int id]) := by
  have hfs : fs.mapM (r.column id row) = some row := by
    refine mapM_of_map ?_
    rw [← map_lookup_zip hn hlen]
    refine List.map_congr_left fun f hf => ?_
    obtain ⟨i, hi, rfl⟩ := List.getElem_of_mem hf
    have hget : ((fs.zip row).lookup fs[i]).isSome = true := by
      have := congrArg (fun l => l[i]?) (map_lookup_zip hn hlen)
      simp only [List.getElem?_map, List.getElem?_eq_getElem hi,
        List.getElem?_eq_getElem (hlen ▸ hi : i < row.length), Option.map_some,
        Option.some.injEq] at this
      rw [this]
      rfl
    obtain ⟨v, hv⟩ := Option.isSome_iff_exists.mp hget
    simp only [Relation.column, hcols, hv]
  have hid : r.column id row (lit "rowid") = some (.int id) := by
    have hnone : ((r.columns.map (·.1)).zip row).lookup (lit "rowid") = none := by
      rw [hcols]
      refine List.lookup_eq_none_iff.mpr fun p hp => ?_
      exact bne_iff_ne.mpr (ne_of_mem_of_not_mem (List.of_mem_zip hp).1 hrow).symm
    simp only [Relation.column, hnone]
    rfl
  rw [List.mapM_append, hfs]
  simp [hid]

/-- A class of rows that agrees with itself: the names in its description, and as many types. -/
structure Description.Columns (td : Description) (types : List Bytes) : Prop extends td.Named where
  nodup : td.fields.Nodup
  rowid : lit "rowid" ∉ td.fields
  length_types : td.fields.length = types.length

omit [Affinity] in
theorem Description.Columns.of (td : Description) (types : List Bytes)
    (h : isField td.tableName = true ∧ (∀ f ∈ td.fields, isField f = true) ∧ td.fields ≠ [] ∧
      td.fields.Nodup ∧ lit "rowid" ∉ td.fields ∧ td.fields.length = types.length) :
    td.Columns types :=
  ⟨⟨h.1, h.2.1, h.2.2.1⟩, h.2.2.2.1, h.2.2.2.2.1, h.2.2.2.2.2⟩

/-- The table of a description, with these types. -/
def Store.Holds (s : Store) (td : Description) (types : List Bytes) (r : Relation) : Prop :=
  s.tables td.tableName = some r ∧ r.columns = td.fields.zip types

/-- The row that `load` reads of the object that `save` has inserted. -/
def loadedRow (types : List Bytes) (vs : List Literal) (id : Int) : List Value :=
  List.zipWith (fun ty l => stored (affinityType ty) l) types vs ++ [.int id]

/-- **A new object saved and loaded**: every literal comes back as its column stores it. -/
theorem saveAndLoad_new {td : Description} {types : List Bytes} (htd : td.Columns types)
    {obj : Saved} {vs : List Literal} (hid : obj.dbId = 0)
    (hvs : obj.tableInsertValues = joinWith 44 (vs.map Literal.sql))
    (hlen : td.fields.length = vs.length) (hclean : vs.all Literal.clean = true)
    {c : Connection Store} {s : Store} {r : Relation} (hdb : c.db = some s) (hbuf : c.buffer = [])
    (hs : s.Holds td types r) :
    outcome (saveAndLoad td obj) c = .ok (loadedRow types vs r.rows.nextId) := by
  have hne : vs ≠ [] := by
    rintro rfl
    exact htd.fields_ne (List.eq_nil_of_length_eq_zero hlen)
  have hnames : r.columns.map (·.1) = td.fields := by
    rw [hs.2]
    exact List.map_fst_zip htd.length_types.le
  have hhas : r.has td.fields = true := by
    simp [Relation.has, hnames]
  set row := r.newRow (td.fields.zip vs) with hrow
  set s' : Store := { s.set td.tableName ⟨r.columns, r.rows.insert row⟩ with
    insertId := r.rows.nextId } with hs'
  have hinsert : (parse (saveText td obj)).bind s.exec = some (s', []) := by
    rw [parse_insert htd.toNamed hid hvs hne, if_pos hclean, Option.bind_some, Store.exec, hs.1,
      Option.bind_some, if_pos ⟨hlen, hhas⟩]
  obtain ⟨ho, ha⟩ := save_engine hdb hbuf hinsert
  have hrowlen : td.fields.length = row.length := by
    rw [hrow, Relation.newRow, List.length_map, hs.2, List.length_zip, ← htd.length_types,
      Nat.min_self]
  have hload : (parse (loadManyText td (lit "rowid") (showInt r.rows.nextId) [] 1)).bind s'.exec =
      some (s', [row ++ [.int r.rows.nextId]]) := by
    have htable : s'.tables td.tableName = some ⟨r.columns, r.rows.insert row⟩ := by
      simp [hs', Store.set]
    have hlookup : (r.rows.insert row).lookup r.rows.nextId = some row :=
      Table.lookup_eq_some.mpr (by simp)
    rw [parse_load htd.toNamed, Option.bind_some, Store.exec, htable, Option.bind_some]
    simp only [Literal.rowid, Option.bind_some, hlookup, Option.map_some]
    rw [mapM_column (r := ⟨r.columns, r.rows.insert row⟩) r.rows.nextId hnames htd.nodup htd.rowid
      hrowlen]
    rfl
  have hidOut : outcome insertId (⟨[], some s', saveText td obj :: c.prepared⟩ : Connection Store) =
      .ok r.rows.nextId := rfl
  have hidAfter : after insertId (⟨[], some s', saveText td obj :: c.prepared⟩ : Connection Store) =
      ⟨[], some s', saveText td obj :: c.prepared⟩ := rfl
  rw [saveAndLoad, outcome_bind_ok ho, ha, outcome_bind_ok hidOut, hidAfter, load,
    outcome_loadOneWhere engine td _ _ (c := ⟨[], some s', saveText td obj :: c.prepared⟩) rfl
      run_isSome]
  simp only [List.nil_append, engine, hload, Option.isSome_some, if_true, Option.elim_some,
    Option.getD_some, oneOf]
  rw [hrow, newRow_zip hs.2 htd.nodup htd.length_types hlen]
  rfl

/-- `check_and_create_tables` makes such a table. -/
theorem exec_create {td : Description} {types : List Bytes} (htd : td.Columns types)
    (htypes : ∀ ty ∈ types, isField ty = true) {s : Store} (hs : s.tables td.tableName = none) :
    ∃ s', (parse (createText td.tableName (td.fields.zip types))).bind s.exec = some (s', []) ∧
      s'.Holds td types ⟨td.fields.zip types, .empty⟩ := by
  have hne : td.fields.zip types ≠ [] := by
    obtain ⟨f, fs, hf⟩ := List.exists_cons_of_ne_nil htd.fields_ne
    have hlen := htd.length_types
    rw [hf] at hlen
    obtain ⟨ty, tys, rfl⟩ :=
      List.exists_cons_of_length_pos (hlen ▸ Nat.succ_pos _ : 0 < types.length)
    rw [hf]
    exact List.cons_ne_nil _ _
  have hcols : ∀ c ∈ td.fields.zip types, isField c.1 = true ∧ isField c.2 = true := fun c hc =>
    ⟨htd.fields _ (List.of_mem_zip hc).1, htypes _ (List.of_mem_zip hc).2⟩
  refine ⟨s.set td.tableName ⟨td.fields.zip types, .empty⟩, ?_, by simp [Store.set], rfl⟩
  rw [parse_create htd.tableName hcols hne, Option.bind_some, Store.exec, hs]

/-! ## What a statement touches -/

/-- The text changes no table but `t`, and there no row but the one with the rowid `id`. -/
def TouchesOnly (text t : Bytes) (id : Int) : Prop :=
  ∀ (s s' : Store) rows, (parse text).bind s.exec = some (s', rows) →
    (∀ u ≠ t, s'.tables u = s.tables u) ∧
      ∀ r, s.tables t = some r → ∃ r', s'.tables t = some r' ∧ r'.columns = r.columns ∧
        ∀ i ≠ id, r'.rows.lookup i = r.rows.lookup i

/-- An `update` by rowid touches that row only. -/
theorem touchesOnly_update {text t : Bytes} {as : List (Bytes × Literal)} {id : Int}
    (h : parse text = some (.update t as (.int id))) : TouchesOnly text t id := by
  intro s s' rows hexec
  rw [h, Option.bind_some, Store.exec] at hexec
  obtain ⟨r, hr, hexec⟩ := Option.bind_eq_some_iff.mp hexec
  split at hexec
  · cases hexec
    refine ⟨fun u hu => by simp [Store.set, hu], fun r' hr' => ?_⟩
    obtain rfl := Option.some.inj (hr.symm.trans hr')
    have hp : (fun (j : Int) (_ : List Value) => some j == (Literal.int id).rowid) =
        fun j _ => j == id := by
      funext j _
      simp [Literal.rowid]
    refine ⟨⟨r.columns, r.rows.updateWhere (fun j _ => j == id) (r.changedRow as)⟩, ?_, rfl,
      fun i hi => r.rows.lookup_updateWhere_ne hi _⟩
    simp [Store.set, hp]
  · cases hexec

/-- What `save` gives SQLite, on an open connection with nothing streamed before. -/
def SavesAs (td : Description) (obj : Saved) (st : Statement) : Prop :=
  ∀ c : Connection Store, c.db.isSome = true → c.buffer = [] →
    ∃ text, (after (save engine td obj) c).prepared = text :: c.prepared ∧ parse text = some st

theorem savesAs_iff {td : Description} {obj : Saved} {st : Statement} :
    SavesAs td obj st ↔ parse (saveText td obj) = some st := by
  have key : ∀ c : Connection Store, c.db.isSome = true → c.buffer = [] →
      (after (save engine td obj) c).prepared = saveText td obj :: c.prepared := by
    intro c hdb hbuf
    have h := after_perform engine ⟨[], .save td obj⟩ c
    have hfin := (@finish_checked _ _ engine (.save td obj) rfl
      { c with buffer := c.buffer ++ saveText td obj }).2
    simp only [Op.perform, Op.sql, after_stream_bind, List.append_nil, List.nil_append,
      Call.perform, Call.text] at h
    rw [h, hfin, if_pos hdb, hbuf, List.nil_append]
  constructor
  · intro h
    obtain ⟨text, htext, hst⟩ := h ⟨[], some ⟨fun _ => none, 0⟩, []⟩ rfl rfl
    rw [key _ rfl rfl] at htext
    rwa [(List.cons.inj htext).1]
  · exact fun h c hdb hbuf => ⟨_, key c hdb hbuf, h⟩

end Sqlite

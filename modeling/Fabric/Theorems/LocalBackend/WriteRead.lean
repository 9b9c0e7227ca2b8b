import Fabric.LocalBackend.App
import Fabric.Theorems.Sqlite.Serializable

/-! What a call of the local backend returns while other callers use its database and it is stopped and started. -/

namespace Fabric.LocalBackend
open Logging Sqlite Transition Linearizability Session
open Locked (Outcome)

/-- What SQLite promises of the three statements on the item, as long as its table is the one that the component
    creates: the creation leaves it so, an insertion that succeeds puts its text there, and a selection has one column
    and finds what is there, or nothing, unless a step of it fails. -/
structure Items (driver : Rusqlite) where
  /-- There is no `example_items`, or it is a table with the columns of `createTable`; no trigger, view or temporary
      table comes between it and a statement, and no transaction is open. -/
  plain : Option driver.Connection → driver.World → Prop
  /-- What a row gives of the value of the item, when there are the table and the row. -/
  item : Option driver.Connection → driver.World → Option Column
  created : ∀ connection world count connection' world', plain (some connection) world →
    driver.execute connection world createTable.statement (sqliteValues createTable.parameters) =
      (.ok count, connection', world') → plain (some connection') world'
  inserted : ∀ connection world value count connection' world', plain (some connection) world →
    driver.execute connection world (insertItem value).statement (sqliteValues (insertItem value).parameters) =
      (.ok count, connection', world') →
    plain (some connection') world' ∧ item (some connection') world' = some (.value (.text value))
  prepared : ∀ connection world columnCount,
    driver.prepare connection world selectItem.statement = .ok columnCount → columnCount = 1
  selected : ∀ connection world rows connection' world', plain (some connection) world →
    driver.queryMap connection world selectItem.statement (sqliteValues selectItem.parameters) =
      (.ok rows, connection', world') →
    (∀ row, .ok row ∈ rows → item (some connection) world = some (row 0)) ∧
      (rows = [] → item (some connection) world = none)

variable {driver : Rusqlite}

def Items.Plain (items : Items driver) (d : Database driver) : Prop := items.plain d.connection d.world

def Items.of (items : Items driver) (d : Database driver) : Option Column := items.item d.connection d.world

/-! ### One statement -/

/-- A statement does not reach the database, or it runs on its connection. -/
theorem statement_cases (d : Database driver) (statement : Statement) :
    (∃ error, d.statement statement = (.returned (.error error), d)) ∨
      ∃ connection result connection' world', d.connection = some connection ∧
        runStatement driver statement connection d.world = (result, connection', world') ∧
        d.statement statement = (result, ⟨some connection', world', result.isPanic⟩) := by
  unfold Database.statement
  by_cases hpoisoned : d.poisoned = true
  · exact .inl ⟨_, if_pos hpoisoned⟩
  · rw [if_neg hpoisoned]
    cases hconnection : d.connection with
    | none => exact .inl ⟨_, rfl⟩
    | some connection =>
      rcases hrun : runStatement driver statement connection d.world with ⟨result, connection', world'⟩
      exact .inr ⟨connection, result, connection', world', rfl, hrun, by simp only [hrun]⟩

/-- How an execution ends: what is so after each success of the driver is so after a success of the statement. -/
theorem statement_execute (post : Option driver.Connection → driver.World → Prop) (d : Database driver)
    {statement : Statement} (hrequest : statement.request = .execute)
    (hpost : ∀ connection count connection' world', d.connection = some connection →
      driver.execute connection d.world statement.statement (sqliteValues statement.parameters) =
        (.ok count, connection', world') → post (some connection') world') :
    (∃ error, (d.statement statement).1 = .returned (.error error)) ∨
      ∃ count, (d.statement statement).1 = .returned (.ok (.executed count)) ∧
        post (d.statement statement).2.connection (d.statement statement).2.world := by
  rcases statement_cases d statement with
    ⟨error, hstatement⟩ | ⟨connection, result, connection', world', hconnection, hrun, hstatement⟩
  · exact .inl ⟨error, by rw [hstatement]⟩
  · rcases hexecute : driver.execute connection d.world statement.statement (sqliteValues statement.parameters) with
      ⟨error | count, connection'', world''⟩
    · simp only [runStatement, hrequest, hexecute] at hrun
      obtain ⟨rfl, -⟩ := Prod.mk.inj hrun
      exact .inl ⟨_, by rw [hstatement]⟩
    · simp only [runStatement, hrequest, hexecute] at hrun
      obtain ⟨rfl, hstate⟩ := Prod.mk.inj hrun
      obtain ⟨rfl, rfl⟩ := Prod.mk.inj hstate
      refine .inr ⟨count, by rw [hstatement], ?_⟩
      rw [hstatement]
      exact hpost _ _ _ _ hconnection hexecute

/-- Rows that all give one text in their one column. -/
theorem collectRows_of_text {value : String} {rows : List (Except String DriverRow)}
    (h : ∀ row, .ok row ∈ rows → row 0 = .value (.text value)) :
    (∃ error, collectRows 1 rows = .returned (.error error)) ∨
      collectRows 1 rows = .returned (.ok (rows.map fun _ => ⟨[.text value]⟩)) := by
  induction rows with
  | nil => exact .inr rfl
  | cons row rest ih =>
    rcases row with error | row
    · exact .inl ⟨error, rfl⟩
    · have hcolumns : collectColumns row (List.range 1) = .returned (.ok [.text value]) := by
        simp [collectColumns, List.range_succ, h row List.mem_cons_self, relationalValue]
      rcases ih fun row hrow => h row (List.mem_cons_of_mem _ hrow) with ⟨error, hrest⟩ | hrest
      · exact .inl ⟨error, by simp only [collectRows, hcolumns, hrest]⟩
      · exact .inr (by simp only [collectRows, hcolumns, hrest, List.map_cons])

/-- The selection, while the item has a text. -/
theorem statement_select (items : Items driver) {d : Database driver} {value : String} (hplain : items.Plain d)
    (hitem : items.of d = some (.value (.text value))) :
    (∃ error, (d.statement selectItem).1 = .returned (.error error)) ∨
      ∃ rows, (d.statement selectItem).1 = .returned (.ok (.queried rows)) ∧ storedValue rows = .ok value := by
  rcases statement_cases d selectItem with
    ⟨error, hstatement⟩ | ⟨connection, result, _, _, hconnection, hrun, hstatement⟩
  · exact .inl ⟨error, by rw [hstatement]⟩
  · rw [Items.Plain, hconnection] at hplain
    rw [Items.of, hconnection] at hitem
    rw [hstatement]
    have hquery : selectItem.request = .query := rfl
    rcases hprepare : driver.prepare connection d.world selectItem.statement with error | columnCount
    · simp only [runStatement, hquery, hprepare] at hrun
      exact .inl ⟨_, (Prod.mk.inj hrun).1.symm⟩
    · obtain rfl := items.prepared _ _ _ hprepare
      rcases hmap : driver.queryMap connection d.world selectItem.statement (sqliteValues selectItem.parameters) with
        ⟨error | steps, connection', world'⟩
      · simp only [runStatement, hquery, hprepare, hmap] at hrun
        exact .inl ⟨_, (Prod.mk.inj hrun).1.symm⟩
      · obtain ⟨hcolumns, hempty⟩ := items.selected _ _ _ _ _ hplain hmap
        have htext : ∀ row, .ok row ∈ steps → row 0 = .value (.text value) := by
          intro row hrow
          have hcolumn := hcolumns row hrow
          rw [hitem] at hcolumn
          exact (Option.some.inj hcolumn).symm
        simp only [runStatement, hquery, hprepare, hmap] at hrun
        obtain ⟨rfl, -⟩ := Prod.mk.inj hrun
        rcases collectRows_of_text htext with ⟨error, hrows⟩ | hrows
        · exact .inl ⟨_, by rw [hrows]⟩
        · refine .inr ⟨_, by rw [hrows], ?_⟩
          rcases steps with _ | ⟨step, steps⟩
          · rw [hempty rfl] at hitem
            cases hitem
          · rfl

/-! ### The program -/

/-- The table stays plain, and the item as it is. -/
def Keeps (items : Items driver) (d d' : Database driver) : Prop :=
  items.Plain d → items.Plain d' ∧ items.of d' = items.of d

theorem Keeps.refl (items : Items driver) (d : Database driver) : Keeps items d d := fun h => ⟨h, rfl⟩

theorem Keeps.trans {items : Items driver} (d d' d'' : Database driver) (h : Keeps items d d')
    (h' : Keeps items d' d'') : Keeps items d d'' := by
  intro hplain
  obtain ⟨hplain, hitem⟩ := h hplain
  obtain ⟨hplain, hitem'⟩ := h' hplain
  exact ⟨hplain, hitem'.trans hitem⟩

/-- The result of a call that ends well, or says what failed. -/
def Exact (emit : LogRecord → Except LogError Unit) (value : String) (result : Result) : Prop :=
  (∃ error, result = .returned (.error (.database error))) ∨
    (∃ error, emit logged = .error error ∧ result = .returned (.error (.log error))) ∨
    emit logged = .ok () ∧ result = .returned (.ok ⟨value, logged⟩)

theorem ensures_execute {items : Items driver} {path : SqliteDatabasePath} {result : Result → Prop}
    (post : Option driver.Connection → driver.World → Prop) {statement : Statement} {next : Backend}
    {d : Database driver} (hrequest : statement.request = .execute) (hplain : items.Plain d)
    (herror : ∀ error, result (.returned (.error (.database error))))
    (hpost : ∀ connection world count connection' world', items.plain (some connection) world →
      driver.execute connection world statement.statement (sqliteValues statement.parameters) =
        (.ok count, connection', world') → post (some connection') world')
    (hnext : ∀ t : Database driver, post t.connection t.world →
      Ensures (Keeps items) (Database.Spec path) result next t) :
    Ensures (Keeps items) (Database.Spec path) result (execute statement next) d := by
  intro u r t hkept hspec
  cases hspec with
  | refused => exact herror _
  | ran =>
    have hplain' := (hkept hplain).1
    have hexecuted := statement_execute post u hrequest fun connection count connection' world' hconnection =>
      hpost connection u.world count connection' world' (by rwa [Items.Plain, hconnection] at hplain')
    rcases hexecuted with ⟨error, hresult⟩ | ⟨count, hresult, hdone⟩
    · rw [hresult]
      exact herror _
    · rw [hresult]
      exact hnext _ hdone

/-- Callers that leave the item alone do not show. -/
theorem ensures_exact (items : Items driver) (path : SqliteDatabasePath) (emit : LogRecord → Except LogError Unit)
    (value : String) {d : Database driver} (hplain : items.Plain d) :
    Ensures (Keeps items) (Database.Spec path) (Exact emit value) (writeReadLog emit value) d := by
  refine ensures_execute items.plain rfl hplain (fun error => .inl ⟨error, rfl⟩) items.created fun _ hplain => ?_
  refine ensures_execute (fun connection world => items.plain connection world ∧
      items.item connection world = some (.value (.text value)))
    rfl hplain (fun error => .inl ⟨error, rfl⟩) (items.inserted · · value) fun v hinserted => ?_
  intro w r t hkept hspec
  obtain ⟨hplain, hitem⟩ := hkept hinserted.1
  cases hspec with
  | refused => exact .inl ⟨_, rfl⟩
  | ran =>
    rcases statement_select items hplain (hitem.trans hinserted.2) with ⟨error, hresult⟩ | ⟨rows, hresult, hstored⟩
    · rw [hresult]
      exact .inl ⟨error, rfl⟩
    · rw [hresult]
      simp only [hstored]
      cases hemit : emit logged with
      | error error => exact .inr (.inl ⟨error, hemit, rfl⟩)
      | ok _ => exact .inr (.inr ⟨hemit, rfl⟩)

/-- A database file: the table, once it has been created, with the text of the item. -/
abbrev ItemFile := Option (Option String)

def ItemFile.item (file : ItemFile) : Option String := Option.join file

/-- What the two statements of the example that write make of the file. -/
def ItemFile.execute (file : ItemFile) (statement : String) (parameters : List Value) : Except String Nat × ItemFile :=
  if statement = createTable.statement then (.ok 0, some file.item)
  else
    match file, parameters with
    | some _, [.integer _, .text value] => (.ok 1, some (some value))
    | file, _ => (.error "no such table: example_items", file)

/-- Call `i`, from end to end. -/
def whole (i : Nat) (statement : Statement) : List (Adapter.Action Nat) :=
  .call i statement :: List.replicate 5 (.advance i)

end Fabric.LocalBackend

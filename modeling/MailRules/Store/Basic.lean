import MailRules.Disk

/-!
# The record store

A store is opened by the path of its file and keeps nothing else: every operation opens the file
anew, and what it writes is on the disk when it ends. The path `:memory:` stands for no file, and
so does the empty one. Since every operation opens its store anew, such a store is empty each time;
it can be migrated as often as one likes and never has a table when it is asked for records.

A file that is not there is made empty, and an empty file is an empty store. On a machine that has
files and no databases in them a store's file is text, the ledger of migrations and the records in
JSON (`Database.image`).
-/

namespace MailRules

/-- What is wrong with a store's file or with what is in it. -/
inductive DatabaseFault
  | notDatabase
  | noTable
  /-- The ledger of migrations has the name of a migration that is being made. -/
  | recordedTwice
  deriving DecidableEq, Repr

def DatabaseFault.message : DatabaseFault → String
  | .notDatabase => "SQLite failure: `file is not a database`"
  | .noTable => "SQLite failure: `no such table: emails`"
  | .recordedTwice => "SQLite failure: `UNIQUE constraint failed: schema_migrations.version`"

inductive StoreError
  | directory (fault : DiskFault)
  /-- What the path leads to is no file and cannot become one. -/
  | unopened (path : String)
  | migration (fault : DatabaseFault)
  | records (fault : DatabaseFault)
  deriving DecidableEq, Repr

/-- Why a path could not be opened. -/
def unopenedMessage (path : String) : String :=
  let reason := s!"Unable to open connection to local database {path}: 14"
  s!"failed to open connection: Failed to connect to database: `{reason}`"

def StoreError.message : StoreError → String
  | .directory fault => s!"failed to create database directory: {fault.message}"
  | .unopened path => s!"database error: {unopenedMessage path}"
  | .migration fault => s!"migration failed: {fault.message}"
  | .records fault => s!"sql error: {fault.message}"

/-- What the error says, and below it what the error behind it says. -/
def StoreError.report (e : StoreError) : List String :=
  match e with
  | .directory _ => [e.message]
  | .unopened path => [e.message, unopenedMessage path]
  | .migration fault | .records fault => [e.message, fault.message]

/-! ## What the file holds -/

namespace Database

def empty : Database := { content := none }

/-- Makes the table of records unless it is there. -/
def emailsTable : Migration (Option Table) Empty where
  version := "001_emails"
  change := Step.ofRun fun t ↦ (.ok (), some (t.getD {}))

def migrations : List (Migration (Option Table) Empty) := [emailsTable]

def faultOf : MigrationFault Empty → DatabaseFault
  | .recordedTwice _ => .recordedTwice

def migrate : Step Database DatabaseFault Nat := ExceptT.adapt faultOf (Migration.run migrations)

def withTable {α : Type} (f : Table → α × Table) : Step Database DatabaseFault α :=
  Step.ofRun fun d ↦
    match d.content with
    | none => (.error .noTable, d)
    | some t =>
      let (x, t) := f t
      (.ok x, { d with content := some t })

/-- The database in a file that was not written as one: an empty file is an empty database. -/
def ofSize? (bytes : Nat) : Option Database := if bytes ≤ 1 then some empty else none

/-! ## The file as text -/

open Json in
def codec : Codec Database :=
  let records : Codec (List Record) := .list Record.codec
  .record
    (.cons (.required "migrations" (.list .text)) <| .cons (.optional "records" records) .nil)
    (fun (applied, records, _) ↦ { applied, content := records.map Table.mk })
    (fun d ↦ (d.applied, d.content.map Table.records, ()))

def image (d : Database) : String := (codec.write d).indentedText

def ofImage? (s : String) : Option Database := (codec.readText s).toOption

end Database

/-! ## Stores -/

inductive Store
  /-- A new store for each operation, which nothing else sees. -/
  | fleeting
  | file (path : String)
  deriving DecidableEq, Repr

namespace Store

def ofPath (path : String) : Store :=
  if path = ":memory:" ∨ path = "" then .fleeting else .file path

/-- Opens the store of a path, after making the directory it lies in. -/
def opened (path : String) : Step Disk StoreError Store :=
  match ofPath path with
  | .fleeting => pure .fleeting
  | .file path => Step.ofRun fun d ↦
    match d.makeParent path with
    | .ok d => (.ok (.file path), d)
    | .error fault => (.error (.directory fault), d)

/-- The database in a store's file, and where the file is. -/
def database (path : String) (faulty : DatabaseFault → StoreError) (d : Disk) :
    Except StoreError (Location × Database) :=
  match d.find path with
  | .error _ | .ok (.taken _ .directory) => .error (.unopened path)
  | .ok (.free l) => .ok (l, Database.empty)
  | .ok (.taken l (.database db)) => .ok (l, db)
  | .ok (.taken l (.file content)) =>
    match Database.ofSize? (Text.Glyph.sizeOfAll content) with
    | some db => .ok (l, db)
    | none => .error (faulty .notDatabase)

/-- Runs an operation on the store's database and writes back what it leaves. -/
def operate {α : Type} (store : Store) (faulty : DatabaseFault → StoreError)
    (operation : Step Database DatabaseFault α) : Step Disk StoreError α :=
  Step.ofRun fun d ↦
    match store with
    | .fleeting => ((operation.run Database.empty).1.mapError faulty, d)
    | .file path =>
      match database path faulty d with
      | .error e => (.error e, d)
      | .ok (l, db) =>
        let (result, db) := operation.run db
        (result.mapError faulty, d.set l (.database db))

/-- Makes the pending migrations; gives their number. -/
def migrate (store : Store) : Step Disk StoreError Nat :=
  store.operate .migration Database.migrate

def access {α : Type} (store : Store) (f : Table → α × Table) : Step Disk StoreError α :=
  store.operate .records (Database.withTable f)

def upsert (store : Store) (r : Record) : Step Disk StoreError Unit :=
  store.access fun t ↦ ((), t.upsert r)

def get? (store : Store) (id : String) : Step Disk StoreError (Option Record) :=
  store.access fun t ↦ (t.get? id, t)

def records (store : Store) : Step Disk StoreError (List Record) :=
  store.access fun t ↦ (t.records, t)

def size (store : Store) : Step Disk StoreError Nat := store.access fun t ↦ (t.size, t)

end Store

end MailRules

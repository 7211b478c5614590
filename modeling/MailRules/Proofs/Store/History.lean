import Mathlib
import MailRules.Store.Basic
import MailRules.Proofs.Disk
import MailRules.Proofs.Step
import MailRules.Proofs.Store.Table

/-!
# The history of a store

A store is used again and again, and each time its file is opened anew. What it answers at any point
is decided by the records that came in since its first migration, and by nothing else in its history
(`Store.answers_perform`).

## The invariant

Along a history the path of the store leads to a database all the time (`Store.Holds`), so that
every operation finds the one that the operation before it left. There are only two kinds of
databases that it can be: the one without a table, until the first migration, and then that of a
list of arrivals (`Database.ofArrivals`), which every upsert makes longer by one.

To open the store again does nothing to the disk, since the directory of a file that is there, or
can be made, is there.
-/

namespace MailRules

/-! ## The database -/

namespace Database

/-- The database after its first migration, once records came in one by one. -/
def ofArrivals (rs : List Record) : Database where
  applied := [emailsTable.version]
  content := some (Table.ofArrivals rs)

/-- A migration makes the table unless the ledger says that it was made. -/
theorem run_migrate (db : Database) :
    migrate.run db =
      if emailsTable.version ∈ db.applied then (.ok 0, db)
      else (.ok 1, ⟨db.applied ++ [emailsTable.version], some (db.content.getD {})⟩) := by
  rw [migrate, Step.run_adapt, Migration.run, Step.run_bind_of_ok (Step.run_get db), migrations]
  by_cases h : emailsTable.version ∈ db.applied
  · rw [if_pos h, List.filter_cons_of_neg (by simpa using h)]
    rfl
  · rw [if_neg h, List.filter_cons_of_pos (by simpa using h), List.filter_nil, Migration.makeAll,
      Step.run_bind_of_ok (Step.run_get db)]
    have hmake : emailsTable.make? db =
        .ok ⟨db.applied ++ [emailsTable.version], some (db.content.getD {})⟩ := if_neg h
    rw [hmake]
    rfl

end Database

namespace Store

variable {path : String} {d : Disk} {db : Database}

/-! ## Opening -/

/-- The path leads to a place for a file, and the database there is `db`. -/
def Holds (path : String) (db : Database) (d : Disk) : Prop :=
  ∃ l, ∀ faulty, database path faulty d = .ok (l, db)

theorem exists_place_of_database {faulty : DatabaseFault → StoreError} {l : Location}
    (h : database path faulty d = .ok (l, db)) :
    ∃ place, d.find path = .ok place ∧ (∀ m, place ≠ .taken m .directory) ∧ place.location = l := by
  rw [database] at h
  cases hfind : d.find path with
  | error fault =>
    rw [hfind] at h
    cases h
  | ok place =>
    rw [hfind] at h
    refine ⟨place, rfl, ?_, ?_⟩
    · rintro m rfl
      cases h
    · cases place with
      | free m =>
        cases h
        rfl
      | taken m e =>
        cases e with
        | directory => cases h
        | database old =>
          cases h
          rfl
        | file content =>
          dsimp only at h
          cases hsize : Database.ofSize? (Text.Glyph.sizeOfAll content) with
          | none =>
            rw [hsize] at h
            cases h
          | some old =>
            rw [hsize] at h
            cases h
            rfl

/-- **An operation finds what the one before it left.** -/
theorem Holds.operate {α : Type} (h : Holds path db d) (faulty : DatabaseFault → StoreError)
    (operation : Step Database DatabaseFault α) :
    (((file path).operate faulty operation).run d).1 = (operation.run db).1.mapError faulty ∧
      Holds path (operation.run db).2 (((file path).operate faulty operation).run d).2 := by
  obtain ⟨l, hl⟩ := h
  have hrun : ((file path).operate faulty operation).run d =
      ((operation.run db).1.mapError faulty, d.set l (.database (operation.run db).2)) := by
    rw [Store.operate, Step.run_ofRun]
    dsimp only
    rw [hl faulty]
  obtain ⟨place, hfind, hplace, rfl⟩ := exists_place_of_database (hl faulty)
  rw [hrun]
  refine ⟨rfl, place.location, fun faulty ↦ ?_⟩
  rw [database, Disk.find_set hfind hplace (by simp)]

/-- **To open a store again changes nothing.** -/
theorem Holds.opened (h : Holds path db d) (hpath : ofPath path = .file path) :
    (opened path).run d = (.ok (.file path), d) := by
  obtain ⟨l, hl⟩ := h
  obtain ⟨place, hfind, hplace, -⟩ := exists_place_of_database (hl .records)
  rw [Store.opened, hpath]
  dsimp only
  rw [Step.run_ofRun, Disk.makeParent_of_find hfind hplace]

theorem ofPath_of_opened {d' : Disk} (h : (opened path).run d = (.ok (.file path), d')) :
    ofPath path = .file path := by
  rw [ofPath]
  by_cases hfleeting : path = ":memory:" ∨ path = ""
  · rw [opened, ofPath, if_pos hfleeting] at h
    cases h
  · rw [if_neg hfleeting]

/-! ## Histories -/

inductive Operation
  | upsert (r : Record)
  | get (id : String)
  | records
  | size
  | migrate
  | reopen
  deriving DecidableEq, Repr

/-- The operation without its answer. It leaves the store that the next one is for. -/
def Operation.step (path : String) (store : Store) : Operation → Step Disk StoreError Store
  | upsert r => (fun _ ↦ store) <$> store.upsert r
  | get id => (fun _ ↦ store) <$> store.get? id
  | records => (fun _ ↦ store) <$> store.records
  | size => (fun _ ↦ store) <$> store.size
  | migrate => (fun _ ↦ store) <$> store.migrate
  | reopen => opened path

/-- The record that an operation brings. -/
def Operation.upserted? : Operation → Option Record
  | upsert r => some r
  | _ => none

/-- The store and the disk after an operation. One that fails leaves the store to the next. -/
def advance (path : String) (s : Store × Disk) (operation : Operation) : Store × Disk :=
  match (operation.step path s.1).run s.2 with
  | (.ok store, d) => (store, d)
  | (.error _, d) => (s.1, d)

/-- What operations leave one after the other, whether they succeed or not. -/
def perform (path : String) (history : List Operation) (s : Store × Disk) : Store × Disk :=
  history.foldl (advance path) s

theorem perform_concat (history : List Operation) (operation : Operation) (s : Store × Disk) :
    perform path (history ++ [operation]) s = advance path (perform path history s) operation := by
  rw [perform, perform, List.foldl_append, List.foldl_cons, List.foldl_nil]

theorem perform_append (before since : List Operation) (s : Store × Disk) :
    perform path (before ++ since) s = perform path since (perform path before s) := by
  rw [perform, perform, perform, List.foldl_append]

/-! ### One operation -/

/-- The store is the one of the path, and its database is `db`. -/
def Stands (path : String) (db : Database) (s : Store × Disk) : Prop :=
  s.1 = file path ∧ Holds path db s.2

variable {s : Store × Disk} {operation : Operation}

/-- An operation on the database leaves what it leaves there. -/
theorem Stands.operate {α : Type} (h : Stands path db s) {faulty : DatabaseFault → StoreError}
    (inner : Step Database DatabaseFault α)
    (hstep : operation.step path (file path) =
      (fun _ ↦ file path) <$> (file path).operate faulty inner) :
    Stands path (inner.run db).2 (advance path s operation) := by
  obtain ⟨hstore, hdisk⟩ := h
  have hkept := (hdisk.operate faulty inner).2
  rw [advance, hstore, hstep, Step.run_map]
  cases (((file path).operate faulty inner).run s.2).1 with
  | error e => exact ⟨rfl, hkept⟩
  | ok a => exact ⟨rfl, hkept⟩

theorem Stands.reopen (h : Stands path db s) (hpath : ofPath path = .file path) :
    Stands path db (advance path s .reopen) := by
  obtain ⟨hstore, hdisk⟩ := h
  rw [advance, Operation.step, hdisk.opened hpath]
  exact ⟨rfl, hdisk⟩

/-- Without a table nothing comes in, until the first migration makes one. -/
theorem Stands.advance_empty (h : Stands path Database.empty s) (hpath : ofPath path = .file path)
    (operation : Operation) :
    Stands path (if operation = .migrate then .ofArrivals [] else Database.empty)
      (advance path s operation) := by
  cases operation with
  | upsert r => exact h.operate (Database.withTable fun t ↦ ((), t.upsert r)) rfl
  | get id => exact h.operate (Database.withTable fun t ↦ (t.get? id, t)) rfl
  | records => exact h.operate (Database.withTable fun t ↦ (t.records, t)) rfl
  | size => exact h.operate (Database.withTable fun t ↦ (t.size, t)) rfl
  | migrate => exact h.operate Database.migrate rfl
  | reopen => exact h.reopen hpath

/-- A table that was migrated takes in what an upsert brings, and nothing else changes it. -/
theorem Stands.advance_table {applied : List String} {t : Table}
    (h : Stands path ⟨applied, some t⟩ s) (hpath : ofPath path = .file path)
    (hmigrated : Database.emailsTable.version ∈ applied) (operation : Operation) :
    Stands path ⟨applied, some (t.after operation.upserted?.toList)⟩
      (advance path s operation) := by
  cases operation with
  | upsert r => exact h.operate (Database.withTable fun t ↦ ((), t.upsert r)) rfl
  | get id => exact h.operate (Database.withTable fun t ↦ (t.get? id, t)) rfl
  | records => exact h.operate (Database.withTable fun t ↦ (t.records, t)) rfl
  | size => exact h.operate (Database.withTable fun t ↦ (t.size, t)) rfl
  | migrate =>
    have hleft : Stands path (Database.migrate.run ⟨applied, some t⟩).2 (advance path s .migrate) :=
      h.operate Database.migrate rfl
    rwa [Database.run_migrate, if_pos hmigrated] at hleft
  | reopen => exact h.reopen hpath

/-! ### Whole histories -/

theorem Stands.perform_empty (h : Stands path Database.empty s) (hpath : ofPath path = .file path)
    {history : List Operation} (hnone : .migrate ∉ history) :
    Stands path Database.empty (perform path history s) := by
  induction history using List.reverseRecOn with
  | nil => exact h
  | append_singleton history operation ih =>
    obtain ⟨hbefore, hlast⟩ := not_or.mp (mt List.mem_append.mpr hnone)
    have hadvanced := (ih hbefore).advance_empty hpath operation
    rw [if_neg fun hmigrate : operation = .migrate ↦ hlast (by simp [hmigrate])] at hadvanced
    rwa [perform_concat]

theorem Stands.perform_table {applied : List String} {t : Table}
    (h : Stands path ⟨applied, some t⟩ s) (hpath : ofPath path = .file path)
    (hmigrated : Database.emailsTable.version ∈ applied) (history : List Operation) :
    Stands path ⟨applied, some (t.after (history.filterMap Operation.upserted?))⟩
      (perform path history s) := by
  induction history using List.reverseRecOn with
  | nil => exact h
  | append_singleton history operation ih =>
    have hlast : [operation].filterMap Operation.upserted? = operation.upserted?.toList := by
      cases operation <;> rfl
    rw [perform_concat, List.filterMap_append, hlast, Table.after_append]
    exact ih.advance_table hpath hmigrated operation

/-! ## Answers -/

/-- What a store answers as long as it has no table. -/
structure Refuses (store : Store) (d : Disk) : Prop where
  upsert (r : Record) : ((store.upsert r).run d).1 = .error (.records .noTable)
  get (id : String) : ((store.get? id).run d).1 = .error (.records .noTable)
  records : (store.records.run d).1 = .error (.records .noTable)
  size : (store.size.run d).1 = .error (.records .noTable)
  migrate : (store.migrate.run d).1 = .ok 1

/-- What a store answers once records came into its table one by one. -/
structure Answers (store : Store) (arrivals : List Record) (d : Disk) : Prop where
  records : ∃ listed, (store.records.run d).1 = .ok listed ∧
    listed.map Record.id = (arrivals.map Record.id).eraseDups ∧
    ∀ r ∈ listed, latest? arrivals r.id = some r
  get (id : String) : ((store.get? id).run d).1 = .ok (latest? arrivals id)
  absent_iff (id : String) :
    ((store.get? id).run d).1 = .ok none ↔ ∀ r ∈ arrivals, r.id ≠ id
  size : (store.size.run d).1 = .ok (arrivals.map Record.id).eraseDups.length
  upsert (r : Record) : ((store.upsert r).run d).1 = .ok ()
  migrate : (store.migrate.run d).1 = .ok 0

theorem Holds.refuses (h : Holds path Database.empty d) : Refuses (file path) d where
  upsert r := (h.operate .records (Database.withTable fun t ↦ ((), t.upsert r))).1
  get id := (h.operate .records (Database.withTable fun t ↦ (t.get? id, t))).1
  records := (h.operate .records (Database.withTable fun t ↦ (t.records, t))).1
  size := (h.operate .records (Database.withTable fun t ↦ (t.size, t))).1
  migrate := (h.operate .migration Database.migrate).1

theorem Holds.answers {rs : List Record} (h : Holds path (.ofArrivals rs) d) :
    Answers (file path) rs d := by
  have hget (id : String) : (((file path).get? id).run d).1 = .ok (latest? rs id) := by
    rw [← Table.get?_ofArrivals]
    exact (h.operate .records (Database.withTable fun t ↦ (t.get? id, t))).1
  refine ⟨⟨(Table.ofArrivals rs).records, ?_, Table.map_id_ofArrivals rs,
    fun r ↦ Table.latest?_of_mem_ofArrivals⟩, hget, fun id ↦ ?_, ?_, fun r ↦ ?_, ?_⟩
  · exact (h.operate .records (Database.withTable fun t ↦ (t.records, t))).1
  · rw [hget, Except.ok.injEq, latest?_eq_none_iff]
  · rw [← Table.size_ofArrivals]
    exact (h.operate .records (Database.withTable fun t ↦ (t.size, t))).1
  · exact (h.operate .records (Database.withTable fun t ↦ ((), t.upsert r))).1
  · exact (h.operate .migration Database.migrate).1

/-- **A store answers by what came in since its first migration.** Until then it has no table: it
refuses whatever is about records, and its database stays empty. Then it lists each identifier once,
where it came first, with the last record that came with it, and it finds that record under the
identifier. What it was told before the first migration, later migrations and opening it again have
no part in this. -/
theorem answers_perform {d₀ : Disk} (hopened : (opened path).run d₀ = (.ok (file path), d))
    (hempty : Holds path Database.empty d) (history : List Operation) :
    (.migrate ∉ history →
      Refuses (perform path history (file path, d)).1 (perform path history (file path, d)).2 ∧
        Holds path Database.empty (perform path history (file path, d)).2) ∧
      ∀ before since, history = before ++ .migrate :: since → .migrate ∉ before →
        Answers (perform path history (file path, d)).1 (since.filterMap Operation.upserted?)
          (perform path history (file path, d)).2 := by
  have hpath : ofPath path = file path := ofPath_of_opened hopened
  have hstart : Stands path Database.empty (file path, d) := ⟨rfl, hempty⟩
  constructor
  · intro hnone
    obtain ⟨hstore, hdisk⟩ := hstart.perform_empty hpath hnone
    rw [hstore]
    exact ⟨hdisk.refuses, hdisk⟩
  · rintro before since rfl hnone
    have hmigrated := (hstart.perform_empty hpath hnone).advance_empty hpath .migrate
    rw [if_pos rfl] at hmigrated
    obtain ⟨hstore, hdisk⟩ := hmigrated.perform_table hpath (List.mem_singleton_self _) since
    rw [perform_append, perform, List.foldl_cons, ← perform, hstore]
    exact hdisk.answers

/-- The first record comes too early, and then twice, with a migration and an opening between. -/
theorem answers_perform_of_repeated :
    (opened "cache/mail.db").run {} =
        (.ok (file "cache/mail.db"), { entries := [(["cache".toList], .directory)] }) ∧
      Holds "cache/mail.db" Database.empty { entries := [(["cache".toList], .directory)] } ∧
      Operation.migrate ∉ [.upsert ⟨"3", "", "", "early", ""⟩, .reopen] ∧
      let s := perform "cache/mail.db"
        ([.upsert ⟨"3", "", "", "early", ""⟩, .reopen] ++ .migrate ::
          [.upsert ⟨"2", "", "", "new", ""⟩, .upsert ⟨"1", "", "", "other", ""⟩, .migrate, .get "2",
            .reopen, .upsert ⟨"2", "", "", "newer", ""⟩, .size])
        (file "cache/mail.db", { entries := [(["cache".toList], .directory)] })
      Answers s.1
        [⟨"2", "", "", "new", ""⟩, ⟨"1", "", "", "other", ""⟩, ⟨"2", "", "", "newer", ""⟩] s.2 :=
  have hopened : (opened "cache/mail.db").run {} =
      (.ok (file "cache/mail.db"), { entries := [(["cache".toList], .directory)] }) := by
    decide +kernel
  have hempty : Holds "cache/mail.db" Database.empty
      { entries := [(["cache".toList], .directory)] } :=
    ⟨["cache".toList, "mail.db".toList], fun _ ↦ by rfl⟩
  have hnone : Operation.migrate ∉ [.upsert ⟨"3", "", "", "early", ""⟩, .reopen] := by decide
  ⟨hopened, hempty, hnone, (answers_perform hopened hempty _).2 _ _ rfl hnone⟩

end Store

end MailRules

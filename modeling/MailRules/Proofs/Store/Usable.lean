import Mathlib
import MailRules.Proofs.Store.Replay

/-!
# Which stores can be used

Once a store is opened and migrated, records can be brought to it and asked for, whatever was in its
file before (`Store.usable_after_migration`). There are two ways in which this fails, and both are
of the same kind: what the migration said that it made is not there for the next operation.

A path that stands for no file has a store of its own for every operation. A migration makes a table
in its own store and ends, and the upsert after it meets a store without a table
(`Store.upsert_refused_in_memory`). And the ledger of a file may say that the table was made while
there is none. No operation of a store leaves such a file (`Database.Honest.migrate`,
`Database.Honest.withTable`).
-/

namespace MailRules

/-! ## Honest ledgers -/

namespace Database

/-- If the ledger says that the table was made, it is there. -/
def Honest (db : Database) : Prop := emailsTable.version ∈ db.applied → db.content ≠ none

variable {db : Database}

theorem honest_empty : Honest empty := by
  intro h
  cases h

theorem Honest.migrate (h : db.Honest) : (Database.migrate.run db).2.Honest := by
  rw [run_migrate]
  split
  · exact h
  · intro _
    simp

theorem Honest.withTable {α : Type} (h : db.Honest) (f : Table → α × Table) :
    ((Database.withTable f).run db).2.Honest := by
  rcases db with ⟨applied, none | t⟩
  · exact h
  · intro _
    exact Option.some_ne_none _

/-- After a migration an honest database has a table and a ledger that says so. -/
theorem Honest.exists_migrated (h : db.Honest) :
    ∃ applied, emailsTable.version ∈ applied ∧
      (Database.migrate.run db).2 = ⟨applied, some (db.content.getD {})⟩ := by
  rw [run_migrate]
  by_cases hversion : emailsTable.version ∈ db.applied
  · rw [if_pos hversion]
    rcases db with ⟨applied, none | t⟩
    · exact absurd rfl (h hversion)
    · exact ⟨applied, hversion, rfl⟩
  · rw [if_neg hversion]
    exact ⟨_, List.mem_append_right _ (List.mem_singleton_self _), rfl⟩

end Database

namespace Store

variable {path : String} {d : Disk} {db : Database}

/-! ## Stores without a file -/

theorem fst_perform_fleeting (hpath : ofPath path = .fleeting) (history : List Operation)
    (d : Disk) : (perform path history (.fleeting, d)).1 = .fleeting := by
  induction history using List.reverseRecOn with
  | nil => rfl
  | append_singleton history operation ih =>
    have hopened (d : Disk) : (opened path).run d = (.ok .fleeting, d) := by
      rw [opened, hpath]
      rfl
    rw [perform_concat, advance, ih]
    cases operation with
    | upsert | get | records | size | migrate => rfl
    | reopen => rw [Operation.step, hopened]

theorem refuses_fleeting (d : Disk) : Refuses .fleeting d where
  upsert _ := rfl
  get _ := rfl
  records := rfl
  size := rfl
  migrate := rfl

/-! ## Stores in a file -/

/-- What a store answers that had a table and then got more records. -/
structure Serves (store : Store) (t : Table) (arrivals : List Record) (d : Disk) : Prop where
  upsert (r : Record) : ((store.upsert r).run d).1 = .ok ()
  get (id : String) : ((store.get? id).run d).1 = .ok ((latest? arrivals id).or (t.get? id))
  records : (store.records.run d).1 = .ok (t.after arrivals).records
  size : (store.size.run d).1 = .ok (t.after arrivals).size

theorem Holds.serves {applied : List String} {t : Table} {arrivals : List Record}
    (h : Holds path ⟨applied, some (t.after arrivals)⟩ d) : Serves (file path) t arrivals d where
  upsert r := (h.operate .records (Database.withTable fun t ↦ ((), t.upsert r))).1
  get id := by
    rw [← Table.get?_after]
    exact (h.operate .records (Database.withTable fun t ↦ (t.get? id, t))).1
  records := (h.operate .records (Database.withTable fun t ↦ (t.records, t))).1
  size := (h.operate .records (Database.withTable fun t ↦ (t.size, t))).1

theorem Holds.serves_of_honest (h : Holds path (Database.migrate.run db).2 d)
    (hpath : ofPath path = .file path) (honest : db.Honest) (history : List Operation) :
    Serves (perform path history (file path, d)).1 (db.content.getD {})
      (history.filterMap Operation.upserted?) (perform path history (file path, d)).2 := by
  obtain ⟨applied, hversion, hmigrated⟩ := honest.exists_migrated
  have hstands : Stands path ⟨applied, some (db.content.getD {})⟩ (file path, d) :=
    ⟨rfl, hmigrated ▸ h⟩
  obtain ⟨hstore, hdisk⟩ := hstands.perform_table hpath hversion history
  rw [hstore]
  exact hdisk.serves

theorem Holds.not_serves (h : Holds path (Database.migrate.run db).2 d) (honest : ¬db.Honest)
    (t : Table) (arrivals : List Record) : ¬Serves (file path) t arrivals d := by
  intro hserves
  obtain ⟨hversion, hcontent⟩ : Database.emailsTable.version ∈ db.applied ∧ db.content = none := by
    simpa [Database.Honest] using honest
  rw [Database.run_migrate, if_pos hversion] at h
  have hsize := (h.operate .records (Database.withTable fun t ↦ (t.size, t))).1
  rw [Database.withTable, Step.run_ofRun, hcontent] at hsize
  cases hsize.symm.trans hserves.size

theorem exists_database_of_migrate {n : ℕ} (h : ((file path).migrate.run d).1 = .ok n) :
    ∃ l db, database path .migration d = .ok (l, db) := by
  rw [Store.migrate, operate, Step.run_ofRun] at h
  dsimp only at h
  cases hdatabase : database path .migration d with
  | error e =>
    rw [hdatabase] at h
    cases h
  | ok found => exact ⟨found.1, found.2, rfl⟩

/-! ## After a migration -/

/-- **Which stores can be used once they are migrated.** A store that is in a file takes in every
record from then on and answers by what was there before and by what came in, if the ledger that it
was opened with was honest, and else it does not. A store without a file refuses whatever is about
records, at every point of every history, and can be migrated again and again. -/
theorem usable_after_migration {store : Store} {d₀ d₁ d₂ : Disk} {n : ℕ}
    (hopened : (opened path).run d₀ = (.ok store, d₁))
    (hmigrated : store.migrate.run d₁ = (.ok n, d₂)) :
    (path = ":memory:" ∨ path = "" → ∀ history,
      Refuses (perform path history (store, d₂)).1 (perform path history (store, d₂)).2) ∧
    (¬(path = ":memory:" ∨ path = "") → ∃ l db, database path .migration d₁ = .ok (l, db) ∧
      (db.Honest ↔ ∀ history,
        Serves (perform path history (store, d₂)).1 (db.content.getD {})
          (history.filterMap Operation.upserted?) (perform path history (store, d₂)).2)) := by
  constructor
  · intro hfleeting history
    have hpath : ofPath path = .fleeting := if_pos hfleeting
    obtain rfl : .fleeting = store := by
      rw [opened, hpath] at hopened
      exact Except.ok.inj (Prod.mk.inj hopened).1
    rw [fst_perform_fleeting hpath]
    exact refuses_fleeting _
  · intro hfile
    have hpath : ofPath path = .file path := if_neg hfile
    obtain rfl : .file path = store := by
      rw [opened, hpath] at hopened
      dsimp only at hopened
      rw [Step.run_ofRun] at hopened
      cases hparent : d₀.makeParent path with
      | error fault =>
        rw [hparent] at hopened
        cases (Prod.mk.inj hopened).1
      | ok d =>
        rw [hparent] at hopened
        exact Except.ok.inj (Prod.mk.inj hopened).1
    obtain ⟨l, db, hdatabase⟩ := exists_database_of_migrate (congrArg Prod.fst hmigrated)
    have hdisk : Holds path (Database.migrate.run db).2 d₂ := by
      have hleft := ((holds_of_database hdatabase).operate .migration Database.migrate).2
      rwa [← Store.migrate, hmigrated] at hleft
    refine ⟨l, db, hdatabase, fun honest ↦ hdisk.serves_of_honest hpath honest, fun hserves ↦ ?_⟩
    by_contra honest
    exact hdisk.not_serves honest _ _ (hserves [])

/-- A file that is not there yet. The migration that comes again does nothing. -/
theorem usable_after_migration_of_new_file :
    let d : Disk := { entries := [(["cache".toList], .directory)] }
    let migrated := (file "cache/mail.db").migrate.run d
    let history : List Operation :=
      [.upsert ⟨"2", "", "", "new", ""⟩, .migrate, .upsert ⟨"1", "", "", "other", ""⟩, .reopen,
        .upsert ⟨"2", "", "", "newer", ""⟩]
    let s := perform "cache/mail.db" history (file "cache/mail.db", migrated.2)
    (opened "cache/mail.db").run {} = (.ok (file "cache/mail.db"), d) ∧
      migrated = (.ok 1, migrated.2) ∧
      Serves s.1 {} (history.filterMap Operation.upserted?) s.2 ∧
      (s.1.records.run s.2).1 = .ok [⟨"2", "", "", "newer", ""⟩, ⟨"1", "", "", "other", ""⟩] := by
  intro d migrated history s
  have hopened : (opened "cache/mail.db").run {} = (.ok (file "cache/mail.db"), d) := by
    decide +kernel
  have hmigrated : migrated = (.ok 1, migrated.2) := by decide +kernel
  obtain ⟨l, db, hdatabase, hiff⟩ := (usable_after_migration hopened hmigrated).2 (by decide)
  obtain rfl : Database.empty = db := by
    have hempty : database "cache/mail.db" .migration d =
        .ok (["cache".toList, "mail.db".toList], Database.empty) := by rfl
    exact (Prod.mk.inj (Except.ok.inj (hempty.symm.trans hdatabase))).2
  have hserves := hiff.mp Database.honest_empty history
  exact ⟨hopened, hmigrated, hserves, hserves.records⟩

/-- A store in memory is opened and migrated, and the first upsert has no table. -/
theorem upsert_refused_in_memory :
    (opened ":memory:").run {} = (.ok .fleeting, {}) ∧
      fleeting.migrate.run {} = (.ok 1, {}) ∧
      ((fleeting.upsert ⟨"a", "", "", "", ""⟩).run {}).1 = .error (.records .noTable) := by
  decide +kernel

end Store

end MailRules

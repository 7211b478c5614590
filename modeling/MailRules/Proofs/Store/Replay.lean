import Mathlib
import MailRules.Proofs.Store.History

/-!
# Records that come again

A list of records is brought to a table, is cut short somewhere, and is brought once more from its
beginning. Nothing can be seen of the first time in the end (`Table.putAll_of_prefix`): an
identifier has its place since it first came, and its record is the last that came with it.

Two records with different identifiers may be brought in either order if the place of one of them is
there already, and of two with the same identifier the first leaves no trace. So a record that is
brought a second time can be moved to where it is brought for the last time, past everything that
has a place. This needs no more of the table that the records are brought to, in which identifiers
may even repeat.

What a store lists is such a table, or an error, and an upsert ends with that error
(`Store.run_upsert`).
-/

namespace MailRules

namespace Table

/-- Brings records to a table, one by one. -/
def putAll (arrivals records : List Record) : List Record :=
  arrivals.foldl (fun records r ↦ put r records) records

variable {r s : Record} {records arrivals before : List Record}

@[simp] theorem putAll_nil (records : List Record) : putAll [] records = records := rfl

theorem putAll_cons (r : Record) (arrivals records : List Record) :
    putAll (r :: arrivals) records = putAll arrivals (put r records) := rfl

theorem putAll_append (arrivals later records : List Record) :
    putAll (arrivals ++ later) records = putAll later (putAll arrivals records) :=
  List.foldl_append

/-! ## Places -/

theorem mem_map_id_put {id : String} :
    id ∈ (put r records).map Record.id ↔ id ∈ records.map Record.id ∨ id = r.id := by
  rw [map_id_put]
  by_cases hr : r.id ∈ records.map Record.id
  · rw [if_pos hr]
    exact ⟨Or.inl, fun h ↦ h.elim (fun h ↦ h) fun h ↦ h ▸ hr⟩
  · rw [if_neg hr, List.mem_append, List.mem_singleton]

theorem mem_map_id_putAll {id : String} :
    id ∈ (putAll arrivals records).map Record.id ↔
      id ∈ records.map Record.id ∨ id ∈ arrivals.map Record.id := by
  induction arrivals generalizing records with
  | nil => simp
  | cons r arrivals ih =>
    rw [putAll_cons, ih, mem_map_id_put, List.map_cons, List.mem_cons, or_assoc]

/-! ## Two records -/

/-- The first of two records with one identifier leaves no trace. -/
theorem put_put_of_id_eq (h : s.id = r.id) : put r (put s records) = put r records := by
  induction records with
  | nil => exact if_pos h
  | cons old records ih =>
    by_cases hs : old.id = s.id
    · rw [put, if_pos hs, put, if_pos h, put, if_pos (hs.trans h)]
    · have hr : old.id ≠ r.id := h ▸ hs
      rw [put, if_neg hs, put, if_neg hr, put, if_neg hr, ih]

/-- Two records change places if one of them has its place. -/
theorem put_comm_of_mem (h : s.id ≠ r.id) (hplace : s.id ∈ records.map Record.id) :
    put s (put r records) = put r (put s records) := by
  induction records with
  | nil => cases hplace
  | cons old records ih =>
    by_cases hs : old.id = s.id
    · have hr : old.id ≠ r.id := hs ▸ h
      rw [put, if_neg hr, put, if_pos hs, put, if_pos hs, put, if_neg h]
    · by_cases hr : old.id = r.id
      · rw [put, if_pos hr, put, if_neg (Ne.symm h), put, if_neg hs, put, if_pos hr]
      · have hlater : s.id ∈ records.map Record.id :=
          (List.mem_cons.mp hplace).resolve_left fun h ↦ hs h.symm
        rw [put, if_neg hr, put, if_neg hs, put, if_neg hs, put, if_neg hr, ih hlater]

/-! ## Replaying -/

/-- A record that is brought in the end need not be brought before others that have a place. -/
theorem put_putAll_put (hplace : ∀ s ∈ arrivals, s.id ∈ records.map Record.id) :
    put r (putAll arrivals (put r records)) = put r (putAll arrivals records) := by
  induction arrivals generalizing records with
  | nil => exact put_put_of_id_eq rfl
  | cons s arrivals ih =>
    rw [putAll_cons, putAll_cons]
    -- the next record covers the one before it, or takes its place and lets that one pass
    by_cases h : s.id = r.id
    · rw [put_put_of_id_eq h.symm]
    · rw [put_comm_of_mem h (hplace s List.mem_cons_self)]
      exact ih fun a ha ↦ mem_map_id_put.mpr (Or.inl (hplace a (List.mem_cons_of_mem s ha)))

/-- **Records that come a second time change nothing.** -/
theorem putAll_putAll_self (arrivals records : List Record) :
    putAll arrivals (putAll arrivals records) = putAll arrivals records := by
  induction arrivals using List.reverseRecOn with
  | nil => rfl
  | append_singleton arrivals r ih =>
    -- all that came before the last record has a place, so that `r` need not be brought early
    have hplace : ∀ s ∈ arrivals, s.id ∈ (putAll arrivals records).map Record.id := fun s hs ↦
      mem_map_id_putAll.mpr (Or.inr (List.mem_map_of_mem hs))
    calc putAll (arrivals ++ [r]) (putAll (arrivals ++ [r]) records)
        = put r (putAll arrivals (put r (putAll arrivals records))) := by
          rw [putAll_append, putAll_append arrivals [r]]
          rfl
      _ = put r (putAll arrivals (putAll arrivals records)) := put_putAll_put hplace
      _ = put r (putAll arrivals records) := by rw [ih]
      _ = putAll (arrivals ++ [r]) records := by
          rw [putAll_append]
          rfl

/-- **What was cut short is not seen in the whole.** -/
theorem putAll_of_prefix (h : before <+: arrivals) (records : List Record) :
    putAll arrivals (putAll before records) = putAll arrivals records := by
  obtain ⟨later, rfl⟩ := h
  rw [putAll_append, putAll_putAll_self, putAll_append]

end Table

/-! ## What a store lists -/

namespace Store

variable {path : String} {d : Disk} {db : Database}

/-- What is made of a file does not depend on how a fault is reported. -/
theorem holds_of_database {faulty : DatabaseFault → StoreError} {l : Location}
    (h : database path faulty d = .ok (l, db)) : Holds path db d := by
  refine ⟨l, fun faulty' ↦ ?_⟩
  obtain ⟨place, hfind, -, -⟩ := exists_place_of_database h
  rw [database, hfind] at h ⊢
  cases place with
  | free m => exact h
  | taken m e =>
    cases e with
    | directory => cases h
    | database old => exact h
    | file content =>
      dsimp only at h ⊢
      cases hsize : Database.ofSize? (Text.Glyph.sizeOfAll content) with
      | none =>
        rw [hsize] at h
        cases h
      | some old =>
        rw [hsize] at h
        exact h

/-- What is listed depends on the database alone. -/
theorem fst_run_records (path : String) (d : Disk) :
    ((file path).records.run d).1 = (database path .records d).bind fun opened ↦
      ((Database.withTable fun t ↦ (t.records, t)).run opened.2).1.mapError .records := by
  rw [Store.records, access, operate, Step.run_ofRun]
  dsimp only
  cases database path .records d <;> rfl

/-- **An upsert fails as listing fails, and else its record is in the list.** -/
theorem run_upsert (store : Store) (r : Record) (d : Disk) :
    ((store.upsert r).run d).1 = (store.records.run d).1.map (fun _ ↦ ()) ∧
      (store.records.run ((store.upsert r).run d).2).1 =
        (store.records.run d).1.map (Table.put r) := by
  cases store with
  | fleeting => exact ⟨rfl, rfl⟩
  | file path =>
    cases hdatabase : database path .records d with
    | error e =>
      have hupsert : ((file path).upsert r).run d = (.error e, d) := by
        rw [Store.upsert, access, operate, Step.run_ofRun]
        dsimp only
        rw [hdatabase]
      rw [hupsert, fst_run_records, hdatabase]
      exact ⟨rfl, rfl⟩
    | ok opened =>
      obtain ⟨l, db⟩ := opened
      have hholds : Holds path db d := holds_of_database hdatabase
      have hlisted {db : Database} {d : Disk} (h : Holds path db d) :
          ((file path).records.run d).1 =
            ((Database.withTable fun t ↦ (t.records, t)).run db).1.mapError .records :=
        (h.operate .records _).1
      obtain ⟨hresult, hleft⟩ :=
        hholds.operate .records (Database.withTable fun t ↦ ((), t.upsert r))
      rw [Store.upsert, access, hresult, hlisted hleft, hlisted hholds]
      rcases db with ⟨applied, none | t⟩
      · exact ⟨rfl, rfl⟩
      · exact ⟨rfl, rfl⟩

end Store

end MailRules

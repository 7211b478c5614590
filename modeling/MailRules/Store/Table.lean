import MailRules.Record

/-!
# The table of records

Records in the order in which their identifiers first came in. A record that comes again takes the
place of the one before it, so the order is that of first arrival and the values are those of the
last.
-/

namespace MailRules

structure Table where
  records : List Record := []
  deriving DecidableEq, Repr

namespace Table

/-- Puts a record in the place of the one with its identifier, or at the end. -/
def put (r : Record) : List Record → List Record
  | [] => [r]
  | s :: rest => if s.id = r.id then r :: rest else s :: put r rest

def upsert (t : Table) (r : Record) : Table := ⟨put r t.records⟩

def get? (t : Table) (id : String) : Option Record := t.records.find? fun r ↦ r.id = id

def size (t : Table) : Nat := t.records.length

/-! ## Looking up after writing -/

theorem get?_upsert_self (t : Table) (r : Record) : (t.upsert r).get? r.id = some r := by
  simp only [upsert, get?]
  induction t.records with
  | nil => simp [put]
  | cons s rest ih => by_cases h : s.id = r.id <;> simp [put, h, ih]

theorem get?_upsert_of_ne (t : Table) {r : Record} {id : String} (h : r.id ≠ id) :
    (t.upsert r).get? id = t.get? id := by
  simp only [upsert, get?]
  induction t.records with
  | nil => simp [put, h]
  | cons s rest ih =>
    by_cases hs : s.id = r.id
    · simp [put, hs, h]
    · by_cases hid : s.id = id <;> simp_all [put]

end Table

end MailRules

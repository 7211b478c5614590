import Mathlib
import MailRules.Store.Table

/-!
# The table that arrivals leave

Records come one after another, and the identifier of one may be that of an earlier one. What the
table then holds can be read off the list of arrivals: its identifiers are those of the list without
repetitions, each where it came first (`Table.map_id_ofArrivals`), and under each of them is the
last record that came with it (`Table.get?_ofArrivals`).

A table in which an identifier stands twice could not keep this up, since a record replaces only the
first one that it meets. Identifiers do not repeat in a table that starts empty, so looking one up
and finding it in the list of records are the same (`Table.latest?_of_mem_ofArrivals`).
-/

namespace MailRules

/-- The last record of a list that has an identifier. -/
def latest? (rs : List Record) (id : String) : Option Record :=
  (rs.filter fun r ↦ r.id = id).getLast?

@[simp] theorem latest?_nil (id : String) : latest? [] id = none := rfl

theorem latest?_concat (rs : List Record) (r : Record) (id : String) :
    latest? (rs ++ [r]) id = if r.id = id then some r else latest? rs id := by
  rw [latest?, latest?, List.filter_append]
  by_cases h : r.id = id <;> simp [h]

theorem latest?_eq_none_iff {rs : List Record} {id : String} :
    latest? rs id = none ↔ ∀ r ∈ rs, r.id ≠ id := by
  rw [latest?, List.getLast?_eq_none_iff, List.filter_eq_nil_iff]
  simp

namespace Table

/-- The table after more records came in one by one. -/
def after (t : Table) (rs : List Record) : Table := rs.foldl upsert t

@[simp] theorem after_nil (t : Table) : t.after [] = t := rfl

theorem after_append (t : Table) (rs more : List Record) :
    t.after (rs ++ more) = (t.after rs).after more := List.foldl_append

theorem after_concat (t : Table) (rs : List Record) (r : Record) :
    t.after (rs ++ [r]) = (t.after rs).upsert r := after_append t rs [r]

/-- The table after records came in one by one. -/
def ofArrivals (rs : List Record) : Table := rs.foldl upsert {}

@[simp] theorem ofArrivals_nil : ofArrivals [] = {} := rfl

theorem ofArrivals_concat (rs : List Record) (r : Record) :
    ofArrivals (rs ++ [r]) = (ofArrivals rs).upsert r := after_concat {} rs r

/-! ## Identifiers -/

theorem map_id_put (r : Record) (rs : List Record) :
    (put r rs).map Record.id =
      if r.id ∈ rs.map Record.id then rs.map Record.id else rs.map Record.id ++ [r.id] := by
  induction rs with
  | nil => rfl
  | cons s rs ih =>
    by_cases hs : s.id = r.id
    · rw [put, if_pos hs, if_pos (by simp [hs]), List.map_cons, List.map_cons, hs]
    · rw [put, if_neg hs, List.map_cons, List.map_cons, ih]
      by_cases hr : r.id ∈ rs.map Record.id
      · rw [if_pos hr, if_pos (List.mem_cons_of_mem _ hr)]
      · rw [if_neg hr, if_neg (List.not_mem_cons_of_ne_of_not_mem (Ne.symm hs) hr),
          List.cons_append]

theorem eraseDups_concat (ids : List String) (id : String) :
    (ids ++ [id]).eraseDups = if id ∈ ids then ids.eraseDups else ids.eraseDups ++ [id] := by
  rw [List.eraseDups_append, List.removeAll]
  by_cases h : id ∈ ids
  · rw [if_pos h, List.filter_cons_of_neg (by simp [h]), List.filter_nil, List.eraseDups_nil,
      List.append_nil]
  · rw [if_neg h, List.filter_cons_of_pos (by simp [h]), List.filter_nil]
    rfl

/-- **Identifiers stand in the order in which they first came.** -/
theorem map_id_ofArrivals (rs : List Record) :
    (ofArrivals rs).records.map Record.id = (rs.map Record.id).eraseDups := by
  induction rs using List.reverseRecOn with
  | nil => rfl
  | append_singleton rs r ih =>
    rw [ofArrivals_concat, upsert, map_id_put, ih, List.map_append, List.map_singleton,
      eraseDups_concat]
    simp only [List.mem_eraseDups]

theorem nodup_map_id_put (r : Record) {rs : List Record} (h : (rs.map Record.id).Nodup) :
    ((put r rs).map Record.id).Nodup := by
  rw [map_id_put]
  by_cases hr : r.id ∈ rs.map Record.id
  · rwa [if_pos hr]
  · rw [if_neg hr]
    exact List.concat_eq_append ▸ h.concat hr

theorem nodup_map_id_ofArrivals (rs : List Record) :
    ((ofArrivals rs).records.map Record.id).Nodup := by
  induction rs using List.reverseRecOn with
  | nil => exact List.nodup_nil
  | append_singleton rs r ih =>
    rw [ofArrivals_concat]
    exact nodup_map_id_put r ih

theorem size_ofArrivals (rs : List Record) :
    (ofArrivals rs).size = (rs.map Record.id).eraseDups.length := by
  rw [size, ← map_id_ofArrivals, List.length_map]

/-! ## Records -/

/-- What was in a table before is found as long as nothing else has come under its identifier. -/
theorem get?_after (t : Table) (rs : List Record) (id : String) :
    (t.after rs).get? id = (latest? rs id).or (t.get? id) := by
  induction rs using List.reverseRecOn with
  | nil => rfl
  | append_singleton rs r ih =>
    rw [after_concat, latest?_concat]
    by_cases h : r.id = id
    · rw [if_pos h, ← h, get?_upsert_self, Option.some_or]
    · rw [if_neg h, get?_upsert_of_ne _ h, ih]

/-- **The record under an identifier is the last that came with it.** -/
theorem get?_ofArrivals (rs : List Record) (id : String) :
    (ofArrivals rs).get? id = latest? rs id :=
  (get?_after {} rs id).trans Option.or_none

theorem latest?_of_mem_ofArrivals {rs : List Record} {r : Record}
    (h : r ∈ (ofArrivals rs).records) : latest? rs r.id = some r := by
  rw [← get?_ofArrivals, get?]
  cases hfound : (ofArrivals rs).records.find? fun s ↦ s.id = r.id with
  | none => simpa using List.find?_eq_none.mp hfound r h
  | some s =>
    have hid : s.id = r.id := by simpa using List.find?_some hfound
    have hs : s ∈ (ofArrivals rs).records := List.mem_of_find?_eq_some hfound
    rw [List.inj_on_of_nodup_map (nodup_map_id_ofArrivals rs) hs h hid]

end Table

end MailRules

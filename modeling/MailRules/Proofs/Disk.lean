import Mathlib
import MailRules.Disk

/-!
# What is written to a file is read from it

Writing puts one entry at the place that a path leads to. The walk along the path goes through
directories only, and none of them is that place, so that the same walk finds the new entry there
(`Disk.walk_set`). Then reading gives the text that was written (`Disk.read_of_write`).

The same walk without its last name ends at a directory. So there is nothing to make above a file
that is there, or that could be made (`Disk.makeParent_of_find`).

A path to another place is not affected by the writing (`Disk.find_of_write`). Paths without the
name of the directory above lead to other places if they begin at the same one and their names are
not the same (`Disk.location_of_find`).
-/

namespace MailRules

open MailRules.Text

theorem Text.allChars?_glyphs (s : List Char) : allChars? (glyphs s) = some s := by
  induction s with
  | nil => rfl
  | cons c s ih =>
    rw [allChars?] at ih ⊢
    rw [glyphs, List.map_cons, List.mapM_cons, ← glyphs, ih]
    rfl

namespace Disk

variable {d : Disk} {l l' : Location} {e : Entry}

/-! ## Entries -/

theorem lookup_put (l : Location) (e : Entry) (entries : List (Location × Entry)) (l' : Location) :
    (put l e entries).lookup l' = if l' = l then some e else entries.lookup l' := by
  have hcons (k : Location) (f : Entry) (es : List (Location × Entry)) :
      ((k, f) :: es).lookup l' = if l' = k then some f else es.lookup l' := by
    rw [List.lookup_cons]
    by_cases h : l' = k
    · rw [if_pos h, h, beq_self_eq_true]
    · rw [if_neg h, beq_false_of_ne h]
  induction entries with
  | nil => rw [put, hcons]
  | cons old entries ih =>
    obtain ⟨k, f⟩ := old
    by_cases hk : k = l
    · rw [put, if_pos hk, hcons, hcons, hk]
      split <;> rfl
    · rw [put, if_neg hk, hcons, hcons, ih]
      by_cases hl : l' = l
      · rw [if_neg fun h ↦ hk (h.symm.trans hl), if_pos hl, if_pos hl]
      · rw [if_neg hl, if_neg hl]

theorem entry?_set (hl : l ≠ []) (l' : Location) :
    Disk.entry? (d.set l e) l' = if l' = l then some e else d.entry? l' := by
  rw [set, entry?, entry?]
  dsimp only
  rw [lookup_put]
  by_cases h : l' = l
  · rw [if_pos h, if_pos h, if_neg (h ▸ hl)]
  · rw [if_neg h, if_neg h]

/-! ## Walking -/

/-- A walk ends at a directory or at a place that is none. -/
theorem entry?_of_walk {names : List (List Char)} {place : Place}
    (h : d.walk l names = .ok place) (hplace : ∀ m, place ≠ .taken m .directory) :
    place.location ≠ [] ∧ d.entry? place.location ≠ some .directory := by
  fun_induction d.walk l names with
  | case1 l => exact absurd (Except.ok.inj h).symm (hplace l)
  | case2 l name names hskip ih => exact ih h
  | case3 l names hskip ih => exact ih h
  | case4 l name names hskip hup hentry ih => exact ih h
  | case5 l name hskip hup f hf hentry =>
    obtain rfl := Except.ok.inj h
    refine ⟨by simp [Place.location], ?_⟩
    rw [Place.location, hentry]
    exact fun h ↦ hf (Option.some.inj h)
  | case6 => cases h
  | case7 l name hskip hup hentry =>
    obtain rfl := Except.ok.inj h
    refine ⟨by simp [Place.location], ?_⟩
    rw [Place.location, hentry]
    exact fun h ↦ by cases h
  | case8 => cases h

/-- The last name of a walk leads to what is there. -/
theorem walk_last {name : List Char} (hskip : ¬(name = [] ∨ name = ['.']))
    (hup : ¬name = ['.', '.']) (he : e ≠ .directory) (hentry : d.entry? (l ++ [name]) = some e) :
    d.walk l [name] = .ok (.taken (l ++ [name]) e) := by
  rw [walk, if_neg hskip, if_neg hup, hentry]
  cases e with
  | directory => exact absurd rfl he
  | file content => rfl
  | database db => rfl

/-- **The walk to a place leads there still** when something else stands there. -/
theorem walk_set {names : List (List Char)} {place : Place} (h : d.walk l names = .ok place)
    (hplace : ∀ m, place ≠ .taken m .directory) (he : e ≠ .directory) :
    (d.set place.location e).walk l names = .ok (.taken place.location e) := by
  obtain ⟨hne, hdirectory⟩ := entry?_of_walk h hplace
  fun_induction d.walk l names with
  | case1 l => exact absurd (Except.ok.inj h).symm (hplace l)
  | case2 l name names hskip ih =>
    rw [walk, if_pos hskip]
    exact ih h
  | case3 l names hskip ih =>
    rw [walk, if_neg hskip, if_pos rfl]
    exact ih h
  | case4 l name names hskip hup hentry ih =>
    -- the walk goes through a directory, and the place is none
    have hkept : Disk.entry? (d.set place.location e) (l ++ [name]) = some .directory := by
      rw [entry?_set hne, if_neg, hentry]
      exact fun hl ↦ hdirectory (hl ▸ hentry)
    rw [walk, if_neg hskip, if_neg hup, hkept]
    exact ih h
  | case5 l name hskip hup f hf hentry =>
    obtain rfl := Except.ok.inj h
    exact walk_last hskip hup he ((entry?_set hne _).trans (if_pos rfl))
  | case6 => cases h
  | case7 l name hskip hup hentry =>
    obtain rfl := Except.ok.inj h
    exact walk_last hskip hup he ((entry?_set hne _).trans (if_pos rfl))
  | case8 => cases h

/-! ## Files -/

theorem walk_of_find {path : String} {place : Place} (h : d.find path = .ok place) :
    path.isEmpty ≠ true ∧ d.walk (d.start path.toList) (splitOn '/' path.toList) = .ok place := by
  rw [find] at h
  by_cases hempty : path.isEmpty = true
  · rw [if_pos hempty] at h
    cases h
  · rw [if_neg hempty] at h
    exact ⟨hempty, h⟩

/-- The place that a path leads to keeps its path when something is put there. -/
theorem find_set {path : String} {place : Place} (h : d.find path = .ok place)
    (hplace : ∀ m, place ≠ .taken m .directory) (he : e ≠ .directory) :
    (d.set place.location e).find path = .ok (.taken place.location e) := by
  obtain ⟨hempty, hwalk⟩ := walk_of_find h
  rw [find, if_neg hempty]
  exact walk_set hwalk hplace he

/-- A write that succeeds puts the file where its path leads, and there is no directory there. -/
theorem exists_place_of_write {path : String} {content : List Glyph} {d' : Disk}
    (h : d.write path content = .ok d') :
    ∃ place, d.find path = .ok place ∧ (∀ m, place ≠ .taken m .directory) ∧
      d' = d.set place.location (.file content) := by
  rw [write] at h
  split at h
  · -- the path of a directory, whether it leads somewhere or not
    revert h
    cases d.walk (d.start path.toList) ((splitOn '/' path.toList).filter (· ≠ [])) <;>
      exact fun h ↦ by cases h
  · cases hfind : d.find path with
    | error fault =>
      rw [hfind] at h
      cases h
    | ok place =>
      rw [hfind] at h
      refine ⟨place, rfl, ?_, ?_⟩
      · rintro m rfl
        cases h
      · cases place with
        | free m => exact (Except.ok.inj h).symm
        | taken m f =>
          cases f with
          | directory => cases h
          | file old => exact (Except.ok.inj h).symm
          | database db => exact (Except.ok.inj h).symm

/-- **What is written is read.** -/
theorem read_of_write {path : String} {s : List Char} {d' : Disk}
    (h : d.write path (glyphs s) = .ok d') : d'.read path = .ok (String.ofList s) := by
  obtain ⟨place, hfind, hplace, rfl⟩ := exists_place_of_write h
  rw [read, find_set hfind hplace (by simp)]
  simp [allChars?_glyphs, bind, Except.bind, pure, Except.pure]

/-! ## Directories -/

/-- A walk that ends at no directory comes to its last place from one. -/
theorem exists_walk_dropLast {names : List (List Char)} {place : Place}
    (h : d.walk l names = .ok place) (hplace : ∀ m, place ≠ .taken m .directory) :
    ∃ above name m, names = above ++ [name] ∧ name ≠ [] ∧ name ≠ ['.'] ∧
      d.walk l above = .ok (.taken m .directory) := by
  fun_induction d.walk l names with
  | case1 l => exact absurd (Except.ok.inj h).symm (hplace l)
  | case2 l name names hskip ih =>
    obtain ⟨above, last, m, rfl, hne, hdot, habove⟩ := ih h
    refine ⟨name :: above, last, m, rfl, hne, hdot, ?_⟩
    rw [walk, if_pos hskip, habove]
  | case3 l names hskip ih =>
    obtain ⟨above, last, m, rfl, hne, hdot, habove⟩ := ih h
    refine ⟨['.', '.'] :: above, last, m, rfl, hne, hdot, ?_⟩
    rw [walk, if_neg hskip, if_pos rfl, habove]
  | case4 l name names hskip hup hentry ih =>
    obtain ⟨above, last, m, rfl, hne, hdot, habove⟩ := ih h
    refine ⟨name :: above, last, m, rfl, hne, hdot, ?_⟩
    rw [walk, if_neg hskip, if_neg hup, hentry]
    exact habove
  | case5 l name hskip hup f hf hentry =>
    obtain ⟨hne, hdot⟩ := not_or.mp hskip
    exact ⟨[], name, l, rfl, hne, hdot, by rw [walk]⟩
  | case6 => cases h
  | case7 l name hskip hup hentry =>
    obtain ⟨hne, hdot⟩ := not_or.mp hskip
    exact ⟨[], name, l, rfl, hne, hdot, by rw [walk]⟩
  | case8 => cases h

/-- A walk to a directory needs none of the names that lead nowhere else. -/
theorem walk_filter {names : List (List Char)} {m : Location}
    (h : d.walk l names = .ok (.taken m .directory)) :
    d.walk l (names.filter fun name ↦ name ≠ [] ∧ name ≠ ['.']) = .ok (.taken m .directory) := by
  fun_induction d.walk l names with
  | case1 l => exact h
  | case2 l name names hskip ih =>
    rw [List.filter_cons_of_neg (by simp only [decide_eq_true_eq]; tauto)]
    exact ih h
  | case3 l names hskip ih =>
    rw [List.filter_cons_of_pos (by decide), walk, if_neg hskip, if_pos rfl]
    exact ih h
  | case4 l name names hskip hup hentry ih =>
    rw [List.filter_cons_of_pos (by simpa [not_or] using hskip), walk, if_neg hskip, if_neg hup,
      hentry]
    exact ih h
  | case5 l name hskip hup f hf hentry =>
    cases h
    exact absurd rfl hf
  | case6 => cases h
  | case7 => cases h
  | case8 => cases h

theorem makeDirectories_of_walk {names : List (List Char)} {m : Location}
    (h : d.walk l names.reverse = .ok (.taken m .directory)) :
    d.makeDirectories l names = .ok d := by
  cases names with
  | nil => rfl
  | cons name above =>
    have hmade : d.makeDirectory l (name :: above).reverse = .ok d := by rw [makeDirectory, h]; rfl
    rw [makeDirectories, hmade]

/-- **There is nothing to make above a place that is none for a directory.** -/
theorem makeParent_of_find {path : String} {place : Place} (h : d.find path = .ok place)
    (hplace : ∀ m, place ≠ .taken m .directory) : d.makeParent path = .ok d := by
  obtain ⟨above, name, m, hnames, hne, hdot, habove⟩ :=
    exists_walk_dropLast (walk_of_find h).2 hplace
  rw [makeParent, steps, hnames, List.filter_append,
    List.filter_cons_of_pos (by simpa using ⟨hne, hdot⟩), List.filter_nil, List.dropLast_concat]
  refine makeDirectories_of_walk (m := m) ?_
  rw [List.reverse_reverse]
  exact walk_filter habove

/-! ## Elsewhere -/

section Elsewhere

variable {m : Location}

/-- A walk that is to go on through what is no directory leads nowhere. -/
theorem exists_fault_of_walk {name : List Char} {names : List (List Char)}
    (hskip : ¬(name = [] ∨ name = ['.'])) (hup : ¬name = ['.', '.']) (hnames : names ≠ [])
    (hentry : d.entry? (l ++ [name]) ≠ some .directory) :
    ∃ fault, d.walk l (name :: names) = .error fault := by
  rw [walk, if_neg hskip, if_neg hup]
  cases hfound : d.entry? (l ++ [name]) with
  | none => exact ⟨.notFound, if_neg hnames⟩
  | some f =>
    cases f with
    | directory => exact absurd hfound hentry
    | file | database => exact ⟨.notDirectory, if_neg hnames⟩

theorem entry?_set_ne_directory (hm : m ≠ []) (he : e ≠ .directory)
    (h : d.entry? l ≠ some .directory) : Disk.entry? (d.set m e) l ≠ some .directory := by
  rw [entry?_set hm]
  by_cases hl : l = m
  · rw [if_pos hl]
    exact fun h ↦ he (Option.some.inj h)
  · rwa [if_neg hl]

/-- **A walk does not see what is put somewhere else**, as long as no directory is put there or lost
by it. A walk that leads nowhere may find another reason for that. -/
theorem walk_set_elsewhere (hm : m ≠ []) (hentry : d.entry? m ≠ some .directory)
    (he : e ≠ .directory) (names : List (List Char)) :
    (∀ place, d.walk l names = .ok place → place.location ≠ m →
        (d.set m e).walk l names = .ok place) ∧
      ∀ fault, d.walk l names = .error fault →
        ∃ fault', (d.set m e).walk l names = .error fault' := by
  fun_induction d.walk l names with
  | case1 l => exact ⟨fun place h _ ↦ h, fun fault h ↦ nomatch h⟩
  | case2 l name names hskip ih =>
    rw [walk, if_pos hskip]
    exact ih
  | case3 l names hskip ih =>
    rw [walk, if_neg hskip, if_pos rfl]
    exact ih
  | case4 l name names hskip hup hdirectory ih =>
    have hkept : Disk.entry? (d.set m e) (l ++ [name]) = some .directory := by
      rw [entry?_set hm, if_neg, hdirectory]
      exact fun hl ↦ hentry (hl ▸ hdirectory)
    rw [walk, if_neg hskip, if_neg hup, hkept]
    exact ih
  | case5 l name hskip hup f hf hfound =>
    refine ⟨fun place h hne ↦ ?_, fun fault h ↦ nomatch h⟩
    obtain rfl := Except.ok.inj h
    exact walk_last hskip hup hf ((entry?_set hm _).trans ((if_neg hne).trans hfound))
  | case6 l name names hskip hup f hf hfound hnames =>
    refine ⟨nofun, fun _ _ ↦ exists_fault_of_walk hskip hup hnames ?_⟩
    exact entry?_set_ne_directory hm he fun h ↦ hf (Option.some.inj (hfound.symm.trans h))
  | case7 l name hskip hup hnone =>
    refine ⟨fun place h hne ↦ ?_, fun fault h ↦ nomatch h⟩
    obtain rfl := Except.ok.inj h
    have hkept : Disk.entry? (d.set m e) (l ++ [name]) = none :=
      (entry?_set hm _).trans ((if_neg hne).trans hnone)
    rw [walk, if_neg hskip, if_neg hup, hkept]
    rfl
  | case8 l name names hskip hup hnone hnames =>
    refine ⟨nofun, fun _ _ ↦ exists_fault_of_walk hskip hup hnames ?_⟩
    exact entry?_set_ne_directory hm he fun h ↦ nomatch hnone.symm.trans h

/-- **What is written under one path is not seen under a path to another place.** -/
theorem find_of_write {path other : String} {content : List Glyph} {d' : Disk}
    (h : d.write path content = .ok d')
    (hother : ∀ place place', d.find other = .ok place → d.find path = .ok place' →
      place.location ≠ place'.location) :
    d'.find other = d.find other ∨
      (∃ fault, d.find other = .error fault) ∧ ∃ fault, d'.find other = .error fault := by
  obtain ⟨place', hfind, hplace, rfl⟩ := exists_place_of_write h
  obtain ⟨hne, hentry⟩ := entry?_of_walk (walk_of_find hfind).2 hplace
  have hwalk := walk_set_elsewhere (l := d.start other.toList) hne hentry
    (e := .file content) (by simp) (splitOn '/' other.toList)
  by_cases hempty : other.isEmpty = true
  · rw [find, find, if_pos hempty, if_pos hempty]
    exact Or.inl rfl
  · cases hfound : d.find other with
    | error fault =>
      rw [find, if_neg hempty] at hfound
      rw [find, if_neg hempty]
      exact Or.inr ⟨⟨fault, rfl⟩, hwalk.2 fault hfound⟩
    | ok place =>
      rw [find, if_neg hempty]
      exact Or.inl (hwalk.1 place (walk_of_find hfound).2 (hother place place' hfound hfind))

/-- Without the name of the directory above, a path spells the location that it leads to. -/
theorem location_of_walk {names : List (List Char)} {place : Place}
    (h : d.walk l names = .ok place) (hup : ['.', '.'] ∉ names) :
    place.location = l ++ names.filter fun name ↦ name ≠ [] ∧ name ≠ ['.'] := by
  fun_induction d.walk l names with
  | case1 l =>
    obtain rfl := Except.ok.inj h
    exact (List.append_nil l).symm
  | case2 l name names hskip ih =>
    rw [List.filter_cons_of_neg (by rcases hskip with rfl | rfl <;> simp)]
    exact ih h (List.not_mem_of_not_mem_cons hup)
  | case3 l names hskip ih => exact absurd List.mem_cons_self hup
  | case4 l name names hskip hdots hdirectory ih =>
    rw [ih h (List.not_mem_of_not_mem_cons hup),
      List.filter_cons_of_pos (by simpa [not_or] using hskip), List.append_assoc,
      List.singleton_append]
  | case5 l name hskip | case7 l name hskip =>
    obtain rfl := Except.ok.inj h
    rw [List.filter_cons_of_pos (by simpa [not_or] using hskip)]
    rfl
  | case6 => cases h
  | case8 => cases h

theorem location_of_find {path : String} {place : Place} (h : d.find path = .ok place)
    (hup : ['.', '.'] ∉ splitOn '/' path.toList) :
    place.location = d.start path.toList ++ steps path.toList :=
  location_of_walk (walk_of_find h).2 hup

end Elsewhere

end Disk

end MailRules

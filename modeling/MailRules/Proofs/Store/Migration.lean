import Mathlib
import MailRules.Store.Migration
import MailRules.Proofs.Step

/-!
# Migrations that fail and are run again

A run makes the pending migrations one after the other, and a migration and its line in the ledger
are made together. So the state that a run ends in was made by a first part of the pending ones, all
of them if the run does not fail (`Migration.makeAll_eq_ok_iff`, `Migration.makeAll_eq_error_iff`),
and what is pending after that is the rest (`Migration.pending_of_makes`).

With this a run can be taken up where another one broke off. What makes a migration fail may be gone
at the next time, and be back at the time after that. `Migration.Falters` says of a migration that
it does what another one does, or fails; a run that breaks off is one of migrations that falter, and
after any number of these (`Migration.BrokenOff`) the state still is one that a first part of the
pending migrations has made. The run that comes through then ends as it would have ended at first
(`Migration.run_resumable`).
-/

namespace MailRules.Migration

variable {δ ε : Type} {m : Migration δ ε} {ms done rest : List (Migration δ ε)}
  {s t u : Ledgered δ} {n : ℕ} {fault : MigrationFault ε}

/-! ## What migrations make -/

/-- The migrations succeed one after the other and are written in the ledger, which makes the one
state out of the other. -/
inductive Makes : List (Migration δ ε) → Ledgered δ → Ledgered δ → Prop
  | nil (s : Ledgered δ) : Makes [] s s
  | cons {m : Migration δ ε} {ms : List (Migration δ ε)} {s t : Ledgered δ} {content : δ}
      (change : m.change.run s.content = (.ok (), content))
      (rest : Makes ms ⟨s.applied ++ [m.version], content⟩ t) : Makes (m :: ms) s t

/-- The migration does not succeed on this content. -/
def FailsOn (m : Migration δ ε) (content : δ) (e : ε) : Prop :=
  (m.change.run content).1 = .error e

namespace Makes

theorem applied_eq (h : Makes ms s t) : t.applied = s.applied ++ ms.map version := by
  induction h with
  | nil => simp
  | cons change rest ih => simp [ih]

theorem append_iff : Makes (done ++ rest) s u ↔ ∃ t, Makes done s t ∧ Makes rest t u := by
  induction done generalizing s with
  | nil =>
    constructor
    · exact fun h ↦ ⟨s, .nil s, h⟩
    · rintro ⟨_, ⟨⟩, h⟩
      exact h
  | cons m done ih =>
    constructor
    · rintro (_ | ⟨change, h⟩)
      obtain ⟨t, hdone, hrest⟩ := ih.mp h
      exact ⟨t, .cons change hdone, hrest⟩
    · rintro ⟨t, _ | ⟨change, hdone⟩, hrest⟩
      exact .cons change (ih.mpr ⟨t, hdone, hrest⟩)

end Makes

/-! ## Making one migration -/

theorem make?_eq_ok_iff :
    m.make? s = .ok t ↔ m.version ∉ s.applied ∧
      ∃ content, m.change.run s.content = (.ok (), content) ∧
        t = ⟨s.applied ++ [m.version], content⟩ := by
  rw [make?]
  rcases m.change.run s.content with ⟨e | ⟨⟩, content⟩
  · simp
  · by_cases h : m.version ∈ s.applied
    · simp [h]
    · simp [h, eq_comm]

theorem make?_of_failsOn {e : ε} (h : m.FailsOn s.content e) : m.make? s = .error (.failed e) := by
  unfold FailsOn at h
  rw [make?]
  rcases hrun : m.change.run s.content with ⟨e' | ⟨⟩, content⟩
  · rw [hrun] at h
    rw [Except.error.inj h]
  · rw [hrun] at h
    cases h

theorem run_makeAll_of_ok (h : m.make? s = .ok t) :
    (makeAll (m :: ms)).run s = (((makeAll ms).run t).1.map (· + 1), ((makeAll ms).run t).2) := by
  have hset : (set t : Step (Ledgered δ) (MigrationFault ε) PUnit).run s = (.ok (), t) := rfl
  rw [makeAll, Step.run_bind_of_ok (Step.run_get s), h]
  dsimp only
  rw [Step.run_bind_of_ok hset, bind_pure_comp, Step.run_map]

theorem run_makeAll_of_error (h : m.make? s = .error fault) :
    (makeAll (m :: ms)).run s = (.error fault, s) := by
  rw [makeAll, Step.run_bind_of_ok (Step.run_get s), h]
  rfl

/-! ## Making them in a row -/

/-- No two of the migrations have one name, and none is in the ledger. -/
structure Fresh (ms : List (Migration δ ε)) (s : Ledgered δ) : Prop where
  distinct : (ms.map version).Nodup
  not_mem : ∀ m ∈ ms, m.version ∉ s.applied

theorem Fresh.tail (h : Fresh (m :: ms) s) (content : δ) :
    Fresh ms ⟨s.applied ++ [m.version], content⟩ := by
  obtain ⟨hhead, htail⟩ := List.nodup_cons.mp h.distinct
  refine ⟨htail, fun m' hm' ↦ ?_⟩
  rw [List.mem_append, List.mem_singleton, not_or]
  refine ⟨h.not_mem m' (List.mem_cons_of_mem m hm'), fun heq ↦ hhead ?_⟩
  rw [← heq]
  exact List.mem_map_of_mem hm'

theorem Fresh.of_append (h : Fresh (done ++ rest) s) : Fresh done s := by
  have hdistinct := h.distinct
  rw [List.map_append] at hdistinct
  exact ⟨hdistinct.of_append_left, fun m hm ↦ h.not_mem m (List.mem_append_left rest hm)⟩

/-- What comes after migrations that succeed is made of what they leave. -/
theorem run_makeAll_append (hfresh : Fresh done s) (h : Makes done s t)
    (rest : List (Migration δ ε)) :
    (makeAll (done ++ rest)).run s =
      (((makeAll rest).run t).1.map (done.length + ·), ((makeAll rest).run t).2) := by
  induction h with
  | nil s =>
    rw [List.nil_append]
    rcases (makeAll rest).run s with ⟨e | n, u⟩
    · rfl
    · simp [Except.map]
  | @cons m ms s t content change _ ih =>
    have hmake : m.make? s = .ok ⟨s.applied ++ [m.version], content⟩ :=
      make?_eq_ok_iff.mpr ⟨hfresh.not_mem m List.mem_cons_self, content, change, rfl⟩
    rw [List.cons_append, run_makeAll_of_ok hmake, ih (hfresh.tail content)]
    rcases (makeAll rest).run t with ⟨e | n, u⟩
    · rfl
    · simp only [Except.map, List.length_cons, Prod.mk.injEq, Except.ok.injEq, and_true]
      omega

theorem run_makeAll_of_makes (hfresh : Fresh ms s) (h : Makes ms s t) :
    (makeAll ms).run s = (.ok ms.length, t) := by
  have hrun := run_makeAll_append hfresh h []
  rwa [List.append_nil] at hrun

/-- Nothing that comes after a migration that fails has a part in the run. -/
theorem run_makeAll_of_failsOn {e : ε} (hfresh : Fresh done s) (h : Makes done s t)
    (hfails : m.FailsOn t.content e) (rest : List (Migration δ ε)) :
    (makeAll (done ++ m :: rest)).run s = (.error (.failed e), t) := by
  rw [run_makeAll_append hfresh h, run_makeAll_of_error (make?_of_failsOn hfails)]
  rfl

/-- Some first part of the migrations succeeds, and the one after it fails if there is one. -/
theorem exists_makes (ms : List (Migration δ ε)) (s : Ledgered δ) :
    (∃ t, Makes ms s t) ∨ ∃ done m rest t e, ms = done ++ m :: rest ∧ Makes done s t ∧
      m.FailsOn t.content e := by
  induction ms generalizing s with
  | nil => exact Or.inl ⟨s, .nil s⟩
  | cons m ms ih =>
    rcases hchange : m.change.run s.content with ⟨e | ⟨⟩, content⟩
    · exact Or.inr ⟨[], m, ms, s, e, rfl, .nil s, congrArg Prod.fst hchange⟩
    · rcases ih ⟨s.applied ++ [m.version], content⟩ with
        ⟨t, h⟩ | ⟨done, m', rest, t, e, rfl, h, hfails⟩
      · exact Or.inl ⟨t, .cons hchange h⟩
      · exact Or.inr ⟨m :: done, m', rest, t, e, rfl, .cons hchange h, hfails⟩

theorem makeAll_eq_ok_iff (hfresh : Fresh ms s) :
    (makeAll ms).run s = (.ok n, t) ↔ n = ms.length ∧ Makes ms s t := by
  constructor
  · intro hrun
    rcases exists_makes ms s with ⟨u, h⟩ | ⟨done, m, rest, u, e, rfl, h, hfails⟩
    · rw [run_makeAll_of_makes hfresh h] at hrun
      obtain ⟨hn, rfl⟩ := Prod.mk.inj hrun
      exact ⟨(Except.ok.inj hn).symm, h⟩
    · rw [run_makeAll_of_failsOn hfresh.of_append h hfails] at hrun
      cases (Prod.mk.inj hrun).1
  · rintro ⟨rfl, h⟩
    exact run_makeAll_of_makes hfresh h

theorem makeAll_eq_error_iff (hfresh : Fresh ms s) :
    (makeAll ms).run s = (.error fault, t) ↔ ∃ done m rest e, ms = done ++ m :: rest ∧
      Makes done s t ∧ m.FailsOn t.content e ∧ fault = .failed e := by
  constructor
  · intro hrun
    rcases exists_makes ms s with ⟨u, h⟩ | ⟨done, m, rest, u, e, rfl, h, hfails⟩
    · rw [run_makeAll_of_makes hfresh h] at hrun
      cases (Prod.mk.inj hrun).1
    · rw [run_makeAll_of_failsOn hfresh.of_append h hfails] at hrun
      obtain ⟨hfault, rfl⟩ := Prod.mk.inj hrun
      exact ⟨done, m, rest, e, rfl, h, hfails, (Except.error.inj hfault).symm⟩
  · rintro ⟨done, m, rest, e, rfl, h, hfails, rfl⟩
    exact run_makeAll_of_failsOn hfresh.of_append h hfails rest

/-! ## What is pending -/

/-- The migrations that the ledger does not have. -/
def pending (ms : List (Migration δ ε)) (s : Ledgered δ) : List (Migration δ ε) :=
  ms.filter fun m ↦ m.version ∉ s.applied

theorem run_run (ms : List (Migration δ ε)) (s : Ledgered δ) :
    (run ms).run s = (makeAll (pending ms s)).run s := by
  rw [run, Step.run_bind_of_ok (Step.run_get s)]
  rfl

theorem fresh_pending (hdistinct : (ms.map version).Nodup) (s : Ledgered δ) :
    Fresh (pending ms s) s := by
  refine ⟨hdistinct.sublist (List.filter_sublist.map version), fun m hm ↦ ?_⟩
  simpa using (List.mem_filter.mp hm).2

/-- Once a first part of the pending migrations is made, the rest is pending. -/
theorem pending_of_makes (hdistinct : (ms.map version).Nodup)
    (hpending : pending ms s = done ++ rest) (h : Makes done s t) : pending ms t = rest := by
  have hapart : ∀ m ∈ rest, m.version ∉ done.map version := by
    have hnodup := (fresh_pending hdistinct s).distinct
    rw [hpending, List.map_append] at hnodup
    intro m hm hmem
    exact List.disjoint_of_nodup_append hnodup hmem (List.mem_map_of_mem hm)
  calc pending ms t
      = (pending ms s).filter fun m ↦ m.version ∉ done.map version := by
        rw [pending, pending, List.filter_filter, h.applied_eq]
        refine List.filter_congr fun m _ ↦ ?_
        simp [not_or, Bool.and_comm]
    _ = rest := by
        rw [hpending, List.filter_append, List.filter_eq_nil_iff.mpr, List.nil_append,
          List.filter_eq_self.mpr]
        · simpa using hapart
        · intro m hm
          simpa using List.mem_map_of_mem hm

/-! ## Runs that break off -/

/-- The migration does what the other one does, or fails. -/
structure Falters (m' m : Migration δ ε) : Prop where
  version_eq : m'.version = m.version
  change {content content' : δ} :
    m'.change.run content = (.ok (), content') → m.change.run content = (.ok (), content')

/-- A run of the migrations that failed, at a time when they faltered. -/
def BrokenOff (ms : List (Migration δ ε)) (s t : Ledgered δ) : Prop :=
  ∃ (atTheTime : Migration δ ε → Migration δ ε) (fault : MigrationFault ε),
    (∀ m ∈ ms, (atTheTime m).Falters m) ∧ (run (ms.map atTheTime)).run s = (.error fault, t)

section Replaced

variable {f : Migration δ ε → Migration δ ε}

theorem Makes.of_falters (hfalters : ∀ m ∈ ms, (f m).Falters m) (h : Makes (ms.map f) s t) :
    Makes ms s t := by
  induction ms generalizing s with
  | nil => exact h
  | cons m ms ih =>
    obtain ⟨hm, hms⟩ := List.forall_mem_cons.mp hfalters
    rw [List.map_cons] at h
    cases h with
    | cons change rest =>
      rw [hm.version_eq] at rest
      exact .cons (hm.change change) (ih hms rest)

theorem map_version_map (hversion : ∀ m ∈ ms, (f m).version = m.version) :
    (ms.map f).map version = ms.map version := by
  rw [List.map_map]
  exact List.map_congr_left hversion

theorem pending_map (hversion : ∀ m ∈ ms, (f m).version = m.version) (s : Ledgered δ) :
    pending (ms.map f) s = (pending ms s).map f := by
  rw [pending, pending, List.filter_map]
  refine congrArg (List.map f) (List.filter_congr fun m hm ↦ ?_)
  rw [Function.comp_apply, hversion m hm]

end Replaced

theorem BrokenOff.exists_makes (hdistinct : (ms.map version).Nodup) (h : BrokenOff ms s t) :
    ∃ done rest, pending ms s = done ++ rest ∧ Makes done s t := by
  obtain ⟨atTheTime, fault, hfalters, hrun⟩ := h
  have hversion := fun m hm ↦ (hfalters m hm).version_eq
  have hdistinct' : ((ms.map atTheTime).map version).Nodup := by
    rwa [map_version_map hversion]
  rw [run_run, makeAll_eq_error_iff (fresh_pending hdistinct' s), pending_map hversion] at hrun
  obtain ⟨done', m, rest, e, hsplit, hmakes, -, -⟩ := hrun
  obtain ⟨done, rest, hpending, rfl, -⟩ := List.map_eq_append_iff.mp hsplit
  refine ⟨done, rest, hpending, hmakes.of_falters fun m hm ↦ hfalters m ?_⟩
  refine List.mem_of_mem_filter (?_ : m ∈ pending ms s)
  rw [hpending]
  exact List.mem_append_left rest hm

/-- **However often runs break off**, what they leave was made by a first part of what was pending
before them. -/
theorem exists_makes_of_brokenOff (hdistinct : (ms.map version).Nodup)
    (h : Relation.ReflTransGen (BrokenOff ms) s t) :
    ∃ done rest, pending ms s = done ++ rest ∧ Makes done s t := by
  induction h with
  | refl => exact ⟨[], pending ms s, rfl, .nil s⟩
  | tail _ hbroken ih =>
    obtain ⟨done, rest, hpending, hmakes⟩ := ih
    obtain ⟨done', rest', hrest, hmakes'⟩ := hbroken.exists_makes hdistinct
    rw [pending_of_makes hdistinct hpending hmakes] at hrest
    refine ⟨done ++ done', rest', ?_, Makes.append_iff.mpr ⟨_, hmakes, hmakes'⟩⟩
    rw [hpending, hrest, List.append_assoc]

/-! ## Whole runs -/

/-- A run that nothing disturbs goes from where other runs broke off to where it would have gone
without them, and makes the fewer migrations by what they had made. -/
theorem run_of_brokenOff (hdistinct : (ms.map version).Nodup)
    (h : Relation.ReflTransGen (BrokenOff ms) s t) :
    ∃ made, t.applied.length = s.applied.length + made ∧
      (run ms).run s = (((run ms).run t).1.map (made + ·), ((run ms).run t).2) := by
  obtain ⟨done, rest, hpending, hmakes⟩ := exists_makes_of_brokenOff hdistinct h
  have hfresh := fresh_pending hdistinct s
  rw [hpending] at hfresh
  refine ⟨done.length, by rw [hmakes.applied_eq, List.length_append, List.length_map], ?_⟩
  rw [run_run, run_run, pending_of_makes hdistinct hpending hmakes, hpending]
  exact run_makeAll_append hfresh.of_append hmakes rest

/-- After a run that came through, nothing of those names is pending. -/
theorem pending_of_run_eq_ok (hdistinct : (ms.map version).Nodup)
    (hrun : (run ms).run s = (.ok n, t)) {later : List (Migration δ ε)}
    (hlater : later.map version = ms.map version) : pending later t = [] := by
  rw [run_run, makeAll_eq_ok_iff (fresh_pending hdistinct s)] at hrun
  rw [pending, List.filter_eq_nil_iff]
  intro m hm
  obtain ⟨m', hm', heq⟩ := List.mem_map.mp (hlater ▸ List.mem_map_of_mem hm : m.version ∈ _)
  rw [decide_eq_true_iff, not_not, hrun.2.applied_eq, List.mem_append, or_iff_not_imp_left]
  intro hnew
  rw [← heq] at hnew ⊢
  exact List.mem_map_of_mem (List.mem_filter.mpr ⟨hm', by simpa using hnew⟩)

/-- **Migrations are made once, and whole or not at all.** Let no two of them have one name. A run
comes through if the pending ones succeed in a row, and gives their number and what they make. It
fails with the first of them that fails, where the earlier ones are made and that one has left no
trace, and whatever the ones after it were to do, the run is the same. After any number of runs that
broke off a run ends as it would have ended before them, and after one that came through it makes
nothing. -/
theorem run_resumable (hdistinct : (ms.map version).Nodup) (s : Ledgered δ) :
    (∀ n t, (run ms).run s = (.ok n, t) ↔
      n = (pending ms s).length ∧ Makes (pending ms s) s t) ∧
    (∀ fault t, (run ms).run s = (.error fault, t) ↔
      ∃ done m rest e, pending ms s = done ++ m :: rest ∧ Makes done s t ∧
        m.FailsOn t.content e ∧ fault = .failed e) ∧
    (∀ done m rest e t, pending ms s = done ++ m :: rest → Makes done s t →
      m.FailsOn t.content e → ∀ f : Migration δ ε → Migration δ ε,
        (∀ m ∈ ms, (f m).version = m.version) → (∀ m' ∈ done ++ [m], f m' = m') →
          (run (ms.map f)).run s = (run ms).run s) ∧
    (∀ t, Relation.ReflTransGen (BrokenOff ms) s t → ∃ made,
      t.applied.length = s.applied.length + made ∧
      (run ms).run s = (((run ms).run t).1.map (made + ·), ((run ms).run t).2)) ∧
    ∀ n t, (run ms).run s = (.ok n, t) → ∀ later : List (Migration δ ε),
      later.map version = ms.map version → (run later).run t = (.ok 0, t) := by
  have hfresh := fresh_pending hdistinct s
  refine ⟨fun n t ↦ ?_, fun fault t ↦ ?_, ?_, fun t ↦ run_of_brokenOff hdistinct, ?_⟩
  · rw [run_run, makeAll_eq_ok_iff hfresh]
  · rw [run_run, makeAll_eq_error_iff hfresh]
  · intro done m rest e t hpending hmakes hfails f hversion hsame
    have hkept : (done ++ [m]).map f = done ++ [m] := by
      rw [List.map_congr_left hsame, List.map_id']
    have hmap : (done ++ m :: rest).map f = done ++ m :: rest.map f := by
      rw [List.append_cons, List.map_append, hkept, ← List.append_cons]
    rw [hpending] at hfresh
    rw [run_run, run_run, pending_map hversion, hpending, hmap,
      run_makeAll_of_failsOn hfresh.of_append hmakes hfails,
      run_makeAll_of_failsOn hfresh.of_append hmakes hfails]
  · intro n t hrun later hlater
    rw [run_run, pending_of_run_eq_ok hdistinct hrun hlater]
    rfl

/-- Adds a table to the list of them. -/
def ofTable (version table : String) : Migration (List String) Unit :=
  ⟨version, modify (· ++ [table])⟩

/-- Adds the second table and fails then. -/
def halfSenders : Migration (List String) Unit :=
  ⟨"002", do modify (· ++ ["senders"]); throw ()⟩

/-- Of two migrations the second one fails at first, and a later run makes it alone. -/
theorem run_resumable_of_second_failing :
    ([ofTable "001" "emails", ofTable "002" "senders"].map version).Nodup ∧
    BrokenOff [ofTable "001" "emails", ofTable "002" "senders"] ⟨[], []⟩ ⟨["001"], ["emails"]⟩ ∧
    (run [ofTable "001" "emails", ofTable "002" "senders"]).run ⟨["001"], ["emails"]⟩ =
      (.ok 1, ⟨["001", "002"], ["emails", "senders"]⟩) ∧
    (run [ofTable "001" "emails", ofTable "002" "senders"]).run ⟨[], []⟩ =
      (.ok 2, ⟨["001", "002"], ["emails", "senders"]⟩) := by
  have hdistinct : ([ofTable "001" "emails", ofTable "002" "senders"].map version).Nodup := by
    decide
  have hbroken : BrokenOff [ofTable "001" "emails", ofTable "002" "senders"] ⟨[], []⟩
      ⟨["001"], ["emails"]⟩ := by
    refine ⟨fun m ↦ if m.version = "002" then halfSenders else m, .failed (), ?_, rfl⟩
    intro m _
    dsimp only
    split
    case isTrue hsecond => exact ⟨hsecond.symm, fun h ↦ by cases h⟩
    case isFalse => exact ⟨rfl, id⟩
  obtain ⟨-, -, -, hresume, -⟩ := run_resumable hdistinct ⟨[], []⟩
  obtain ⟨made, hmade, hrun⟩ := hresume _ (.single hbroken)
  have hlater : (run [ofTable "001" "emails", ofTable "002" "senders"]).run
      ⟨["001"], ["emails"]⟩ = (.ok 1, ⟨["001", "002"], ["emails", "senders"]⟩) := rfl
  obtain rfl : made = 1 := by simpa using hmade.symm
  rw [hlater] at hrun
  exact ⟨hdistinct, hbroken, hlater, hrun⟩

end MailRules.Migration

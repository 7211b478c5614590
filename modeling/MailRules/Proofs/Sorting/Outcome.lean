import MailRules.Proofs.Sorting.Errands

/-!
# What a run leaves on the messages

A run over a service that never fails leaves on every message what the last planned action for each
label asked for. All actions but one put a label on, and the labels are six, so that little can
happen to a message; the theorem about runs below collects what cannot.

The calls themselves are accounted for by replaying them. `LabelMap.replay` is what a list of calls
makes of a label map, without any service; the run's calls replayed give the run's labels, and each
write among them changes the labelling it finds (`Progress`). A run never sends a write that the
labels do not ask for.
-/

namespace MailRules

/-! ## Calls and what they do -/

namespace LabelCall

/-- The write that carries out an errand. -/
def ofErrand (e : Errand) : LabelCall :=
  match e.action.change with
  | .add => .add e.id e.action.label
  | .remove => .remove e.id e.action.label

def isWrite : LabelCall → Bool
  | .get _ => false
  | .add _ _ | .remove _ _ => true

@[simp] theorem id_ofErrand (e : Errand) : (ofErrand e).id = e.id := by
  rw [ofErrand]
  cases e.action.change <;> rfl

@[simp] theorem isWrite_get (id : String) : (get id).isWrite = false := rfl

@[simp] theorem isWrite_ofErrand (e : Errand) : (ofErrand e).isWrite = true := by
  rw [ofErrand]
  cases e.action.change <;> rfl

theorem labelling_applyTo_ofErrand (e : Errand) (m : LabelMap) :
    ((ofErrand e).applyTo m).labelling = e.applyTo m.labelling := by
  rw [ofErrand, Errand.applyTo]
  cases e.action.change with
  | add => exact LabelMap.labelling_add m e.id e.action.label.name
  | remove => exact LabelMap.labelling_remove m e.id e.action.label.name

end LabelCall

namespace LabelMap

/-- What a list of calls makes of a label map. -/
def replay (m : LabelMap) (calls : List LabelCall) : LabelMap :=
  calls.foldl (fun m c ↦ c.applyTo m) m

theorem replay_append (m : LabelMap) (cs ds : List LabelCall) :
    m.replay (cs ++ ds) = (m.replay cs).replay ds := List.foldl_append

/-- Every write among the calls changes the labelling that it finds. -/
def Progress : LabelMap → List LabelCall → Prop
  | _, [] => True
  | m, c :: cs => (c.isWrite → (c.applyTo m).labelling ≠ m.labelling) ∧ Progress (c.applyTo m) cs

@[simp] theorem progress_nil (m : LabelMap) : m.Progress [] := trivial

@[simp] theorem progress_cons {m : LabelMap} {c : LabelCall} {cs : List LabelCall} :
    m.Progress (c :: cs) ↔
      (c.isWrite → (c.applyTo m).labelling ≠ m.labelling) ∧ (c.applyTo m).Progress cs := Iff.rfl

theorem Progress.append {m : LabelMap} {cs ds : List LabelCall} (hcs : m.Progress cs)
    (hds : (m.replay cs).Progress ds) : m.Progress (cs ++ ds) := by
  induction cs generalizing m with
  | nil => exact hds
  | cons c cs ih => exact ⟨hcs.1, ih hcs.2 hds⟩

theorem Progress.labelling_ne {m : LabelMap} {before after : List LabelCall} {c : LabelCall}
    (h : m.Progress (before ++ c :: after)) (hc : c.isWrite) :
    (m.replay (before ++ [c])).labelling ≠ (m.replay before).labelling := by
  induction before generalizing m with
  | nil => exact h.1 hc
  | cons d before ih => exact ih h.2

end LabelMap

/-! ## Errands over the service in memory -/

namespace Memory

theorem run_write (e : Errand) (m : Memory) :
    ((service {}).write e.id e.action).run m =
      (.ok (), { m.log (.ofErrand e) with labels := (LabelCall.ofErrand e).applyTo m.labels }) := by
  rw [LabelService.write, LabelCall.ofErrand]
  cases e.action.change with
  | add => exact run_add e.id e.action.label m
  | remove => exact run_remove e.id e.action.label m

/-- The label is read, and written if that changes anything. -/
theorem run_carryOut (e : Errand) (m : Memory) :
    ((service {}).carryOut e.id e.action).run m =
      if LabelService.changes e.action (m.labels.get e.id) then
        (.ok { mutations := 1 }, ⟨m.labels.replay [.get e.id, .ofErrand e],
          m.calls ++ [.get e.id, .ofErrand e]⟩)
      else (.ok { skipped := 1 }, ⟨m.labels.replay [.get e.id], m.calls ++ [.get e.id]⟩) := by
  have hread : ((service {}).labels e.id).run m = (.ok (m.labels.get e.id), m.log (.get e.id)) :=
    run_labels e.id m
  rw [LabelService.carryOut, Step.run_bind_of_ok hread]
  cases LabelService.changes e.action (m.labels.get e.id) with
  | false => rfl
  | true =>
    rw [if_pos rfl, if_pos rfl, Step.run_bind_of_ok (run_write e (m.log (.get e.id)))]
    simp [log, LabelMap.replay, LabelCall.applyTo]

theorem progress_carryOut {e : Errand} {m : LabelMap}
    (h : LabelService.changes e.action (m.get e.id) = true) :
    m.Progress [.get e.id, .ofErrand e] := by
  have hwrite : ((LabelCall.ofErrand e).applyTo m).labelling ≠ m.labelling := by
    -- Were the labelling the same, the errand's own place would already hold what it asks for.
    intro hsame
    have hplace := Set.ext_iff.mp (congrFun hsame e.id) e.action.label.name
    rw [LabelCall.labelling_applyTo_ofErrand, Errand.mem_applyTo, if_pos ⟨rfl, rfl⟩] at hplace
    rw [LabelService.changes_eq_false_iff.mpr hplace.symm] at h
    cases h
  simpa [LabelCall.applyTo] using hwrite

/-- **The calls of a run**: which they are, what they add up to, and that none is idle. -/
theorem run_carryOutEach (es : List Errand) (m : Memory) :
    ∃ tally made,
      ((service {}).carryOutEach es).run m = (.ok tally, ⟨m.labels.replay made, m.calls ++ made⟩) ∧
        made.countP LabelCall.isWrite = tally.mutations ∧
        (∀ c ∈ made, ∃ e ∈ es, c = .get e.id ∨ c = .ofErrand e) ∧ m.labels.Progress made := by
  induction es generalizing m with
  | nil =>
    refine ⟨{}, [], ?_, rfl, by simp, trivial⟩
    rw [List.append_nil]
    rfl
  | cons e es ih =>
    obtain ⟨first, sent, hfirst, hcount, hsent, hprogress⟩ : ∃ first sent,
        ((service {}).carryOut e.id e.action).run m =
          (.ok first, ⟨m.labels.replay sent, m.calls ++ sent⟩) ∧
        sent.countP LabelCall.isWrite = first.mutations ∧
        (∀ c ∈ sent, c = .get e.id ∨ c = .ofErrand e) ∧ m.labels.Progress sent := by
      rw [run_carryOut]
      cases hchanges : LabelService.changes e.action (m.labels.get e.id) with
      | false => exact ⟨_, _, rfl, rfl, by simp, by simp⟩
      | true => exact ⟨_, _, rfl, by simp, by simp, progress_carryOut hchanges⟩
    obtain ⟨rest, made, hrest, hcounts, hmade, hprogresses⟩ :=
      ih ⟨m.labels.replay sent, m.calls ++ sent⟩
    refine ⟨first + rest, sent ++ made, ?_, ?_, ?_, hprogress.append hprogresses⟩
    · rw [LabelService.carryOutEach, Step.run_bind_of_ok hfirst, Step.run_bind_of_ok hrest,
        LabelMap.replay_append, ← List.append_assoc]
      rfl
    · rw [List.countP_append, hcount, hcounts, Tally.mutations_add]
    · intro c hc
      rcases List.mem_append.mp hc with hc | hc
      · exact ⟨e, List.mem_cons_self, hsent c hc⟩
      · obtain ⟨f, hf, hcall⟩ := hmade c hc
        exact ⟨f, List.mem_cons_of_mem e hf, hcall⟩

end Memory

/-! ## What actions can do -/

/-- The names of the labels that actions touch. -/
def Label.names : List String :=
  ["UNREAD", "STARRED", "IMPORTANT", "SPAM", "CATEGORY_SOCIAL", "INBOX"]

theorem Label.name_mem_names (label : Label) : label.name ∈ Label.names := by
  cases label <;> simp [name, names]

theorem Action.label_of_change_ne_add {a : Action} (h : a.change ≠ .add) : a.label = .unread := by
  cases a <;> first | rfl | exact absurd rfl h

theorem LabelCall.eq_unread_of_ofErrand_eq_remove {e : Errand} {id : String} {label : Label}
    (h : ofErrand e = .remove id label) : label = .unread := by
  rw [ofErrand] at h
  cases hchange : e.action.change with
  | add =>
    rw [hchange] at h
    cases h
  | remove =>
    rw [hchange] at h
    cases h
    exact Action.label_of_change_ne_add (by rw [hchange]; decide)

theorem RuleSet.exists_record_of_mem_errands {rules : RuleSet} {moment : Moment}
    {records : List Record} {e : Errand} (h : e ∈ rules.errands moment records) :
    ∃ r ∈ records, r.id = e.id := by
  obtain ⟨r, hr, he⟩ := List.mem_flatMap.mp h
  exact ⟨r, hr, (Errand.id_of_mem_ofDecision he).symm⟩

namespace RuleSet

variable (rules : RuleSet) (moment : Moment)

/-- **Last writer wins.** After a run over a service that never fails, a label is on a message if
the last planned action for the two put it on, or if there is none and it was there before. No
message outside the records and no label outside the six changes, and only `UNREAD` is taken off.
The writes are as many as the report says, and each of them changes the labels. -/
theorem sort_last_writer (records : List Record) (m : Memory) :
    ∃ report m' made, (rules.sort (Memory.service {}) moment records).run m = (.ok report, m') ∧
      (∀ id label, label ∈ m'.labels.get id ↔
        match Errand.last? (rules.errands moment records) id label with
        | some e => e.action.change = .add
        | none => label ∈ m.labels.get id) ∧
      (∀ id, (∀ r ∈ records, r.id ≠ id) →
        ∀ label, label ∈ m'.labels.get id ↔ label ∈ m.labels.get id) ∧
      (∀ id label, label ∉ Label.names → (label ∈ m'.labels.get id ↔ label ∈ m.labels.get id)) ∧
      (∀ id label, label ∈ m.labels.get id → label ∉ m'.labels.get id → label = "UNREAD") ∧
      m'.calls = m.calls ++ made ∧ m'.labels = m.labels.replay made ∧
      (∀ c ∈ made, ∃ r ∈ records, r.id = c.id) ∧
      (∀ id label, .remove id label ∈ made → label = .unread) ∧
      made.countP LabelCall.isWrite = report.tally.mutations ∧
      ∀ before c after, made = before ++ c :: after → c.isWrite →
        (m.labels.replay (before ++ [c])).labelling ≠ (m.labels.replay before).labelling := by
  obtain ⟨tally, made, hrun, hcount, hmade, hprogress⟩ :=
    Memory.run_carryOutEach (rules.errands moment records) m
  have hlast : ∀ id label, label ∈ (m.labels.replay made).get id ↔
      match Errand.last? (rules.errands moment records) id label with
      | some e => e.action.change = .add
      | none => label ∈ m.labels.get id := by
    obtain ⟨done, -, hview, hall⟩ := (Memory.keeps_service rfl).carryOutEach hrun
    rw [hall tally rfl] at hview
    intro id label
    have hmem := Errand.mem_applyAll (rules.errands moment records) m.view id label
    rw [← hview] at hmem
    exact hmem
  -- A place that no errand is for keeps what it had; both frame conditions are cases of this.
  have hframe : ∀ id label, (∀ e ∈ rules.errands moment records, ¬e.Targets id label) →
      (label ∈ (m.labels.replay made).get id ↔ label ∈ m.labels.get id) := by
    intro id label hnone
    rw [hlast, Errand.last?_eq_none_iff.mpr hnone]
  refine ⟨rules.report moment records tally, ⟨m.labels.replay made, m.calls ++ made⟩, made, ?_,
    hlast, ?_, ?_, ?_, rfl, rfl, ?_, ?_, hcount, ?_⟩
  · rw [run_sort, hrun]
    rfl
  · intro id hid label
    refine hframe id label fun e he htargets ↦ ?_
    obtain ⟨r, hr, hre⟩ := exists_record_of_mem_errands he
    exact hid r hr (hre.trans htargets.1)
  · intro id label hlabel
    refine hframe id label fun e _ htargets ↦ ?_
    exact hlabel (htargets.2 ▸ Label.name_mem_names e.action.label)
  · intro id label hbefore hafter
    rw [hlast] at hafter
    cases he : Errand.last? (rules.errands moment records) id label with
    | none =>
      rw [he] at hafter
      exact absurd hbefore hafter
    | some e =>
      rw [he] at hafter
      rw [← (Errand.targets_of_last? he).2, Action.label_of_change_ne_add hafter]
      rfl
  · intro c hc
    obtain ⟨e, he, hcall⟩ := hmade c hc
    obtain ⟨r, hr, hre⟩ := exists_record_of_mem_errands he
    refine ⟨r, hr, hre.trans ?_⟩
    rcases hcall with rfl | rfl
    · rfl
    · exact (LabelCall.id_ofErrand e).symm
  · intro id label hc
    obtain ⟨e, -, hcall⟩ := hmade _ hc
    rcases hcall with hcall | hcall
    · cases hcall
    · exact LabelCall.eq_unread_of_ofErrand_eq_remove hcall.symm
  · rintro before c after rfl hc
    exact hprogress.labelling_ne hc

end RuleSet

end MailRules

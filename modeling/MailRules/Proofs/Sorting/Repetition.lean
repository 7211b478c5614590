import MailRules.Proofs.Sorting.Resumption

/-!
# Running twice

A second run over the same records finds the labels as the first run left them and leaves them the
same: both end with what the last errand for each label asked for. That does not make the second run
silent. An errand is skipped only if it finds its own place *settled*, and of two errands that ask
for opposite things at most one does, so that both are sent in every run.

After a run every place holds what the last errand for it asked for. So all errands are settled if
and only if no two of them are opposed (`Errand.forall_settled_applyAll_iff`), and opposed errands
are easy to name: only marking as read takes a label off, so the other one marks as unread.
-/

namespace MailRules

namespace Errand

/-- The labelling is already what the errand asks for. -/
def Settled (e : Errand) (v : Labelling) : Prop :=
  e.action.label.name ∈ v e.id ↔ e.action.change = .add

theorem applyTo_eq_of_settled {e : Errand} {v : Labelling} (h : e.Settled v) : e.applyTo v = v := by
  funext id
  ext label
  rw [mem_applyTo]
  split
  · obtain ⟨rfl, rfl⟩ := ‹e.Targets id label›
    exact h.symm
  · rfl

/-- The message is to be marked as read and as unread. -/
def Opposed (es : List Errand) (id : String) : Prop :=
  ⟨id, .markAsRead⟩ ∈ es ∧ ⟨id, .markAsUnread⟩ ∈ es

theorem eq_markAsRead {a : Action} (h : a.change ≠ .add) : a = .markAsRead := by
  cases a <;> first | rfl | exact absurd rfl h

theorem eq_markAsUnread {a : Action} (hchange : a.change = .add) (hlabel : a.label = .unread) :
    a = .markAsUnread := by
  cases a <;> first | rfl | exact absurd hchange (by decide) | cases hlabel

/-- Two errands for one place that ask for different things oppose each other. -/
theorem opposed_of_change_ne {es : List Errand} {e f : Errand} (he : e ∈ es) (hf : f ∈ es)
    (hid : e.id = f.id) (hlabel : e.action.label = f.action.label) (hadd : e.action.change = .add)
    (hremove : f.action.change ≠ .add) : Opposed es e.id := by
  have hf' : f.action = .markAsRead := eq_markAsRead hremove
  have he' : e.action = .markAsUnread := eq_markAsUnread hadd (by rw [hlabel, hf']; rfl)
  constructor
  · rwa [hid, ← hf']
  · rwa [← he']

theorem forall_settled_applyAll_iff (es : List Errand) (v : Labelling) :
    (∀ e ∈ es, e.Settled (applyAll es v)) ↔ ∀ id, ¬Opposed es id := by
  constructor
  · rintro hsettled id ⟨hread, hunread⟩
    have hoff : "UNREAD" ∈ applyAll es v id ↔ Change.remove = .add := hsettled _ hread
    have hon : "UNREAD" ∈ applyAll es v id ↔ Change.add = .add := hsettled _ hunread
    cases hoff.mp (hon.mpr rfl)
  · intro hfree e he
    rw [Settled, mem_applyAll]
    cases hlast : last? es e.id e.action.label.name with
    | none => exact absurd ⟨rfl, rfl⟩ (last?_eq_none_iff.mp hlast e he)
    | some f =>
      obtain ⟨hid, hname⟩ := targets_of_last? hlast
      have hf : f ∈ es := (List.mem_filter.mp (List.mem_of_getLast? hlast)).1
      have hlabel : f.action.label = e.action.label := Label.name_inj hname
      -- If the last errand asked for something else, the two would be opposed.
      by_cases hfadd : f.action.change = .add <;> by_cases headd : e.action.change = .add
      · exact iff_of_true hfadd headd
      · exact absurd (opposed_of_change_ne hf he hid hlabel hfadd headd) (hfree f.id)
      · exact absurd (opposed_of_change_ne he hf hid.symm hlabel.symm headd hfadd) (hfree e.id)
      · exact iff_of_false hfadd headd

end Errand

/-! ## What is sent -/

namespace LabelService.Keeps

variable {σ ε : Type} {service : LabelService σ ε} {view : σ → Labelling} {s s' : σ}

/-- An errand that finds its place settled is skipped, and any other is a mutation. -/
theorem carryOut_settled (keeps : service.Keeps view) {e : Errand} {tally : Tally}
    (h : (service.carryOut e.id e.action).run s = (.ok tally, s')) :
    tally.mutations = 0 ↔ e.Settled (view s) := by
  rcases carryOut_cases h with ⟨err, -, hr⟩ | ⟨answer, t, hread, hrest⟩
  · cases hr
  · have hplace := (keeps.labels hread).2 answer rfl e.action.label.name
    rcases hrest with ⟨hskip, hr, -⟩ | ⟨hsend, ⟨err, -, hr⟩ | ⟨-, hr⟩⟩ <;> cases hr
    · exact iff_of_true rfl (hplace.symm.trans (changes_eq_false_iff.mp hskip))
    · refine iff_of_false Nat.one_ne_zero fun hsettled ↦ ?_
      rw [changes_eq_false_iff.mpr (hplace.trans hsettled)] at hsend
      cases hsend

/-- **Nothing is sent if and only if everything is settled beforehand.** -/
theorem mutations_eq_zero_iff (keeps : service.Keeps view) {es : List Errand} {tally : Tally}
    (h : (service.carryOutEach es).run s = (.ok tally, s')) :
    tally.mutations = 0 ↔ ∀ e ∈ es, e.Settled (view s) := by
  induction es generalizing s tally with
  | nil =>
    obtain ⟨rfl, -⟩ : ({} : Tally) = tally ∧ s = s' := by
      simpa [LabelService.carryOutEach] using h
    simp
  | cons e es ih =>
    rcases carryOutEach_cons_cases h with ⟨err, -, hr⟩ | ⟨first, t, rest, hfirst, hrest, hr⟩
    · cases hr
    · cases rest with
      | error err => cases hr
      | ok rest =>
        obtain rfl : tally = first + rest := Except.ok.inj hr
        rw [Tally.mutations_add, Nat.add_eq_zero_iff, List.forall_mem_cons,
          keeps.carryOut_settled hfirst, ih hrest]
        refine and_congr_right fun hsettled ↦ ?_
        -- A settled errand leaves the labels alone, so the rest starts where the whole did.
        have hview : view t = view s := by
          rcases keeps.carryOut hfirst with hdone | ⟨⟨err, herr⟩, -⟩
          · rw [hdone, Errand.applyTo_eq_of_settled hsettled]
          · cases herr
        rw [hview]

end LabelService.Keeps

/-! ## The second run -/

namespace RuleSet

variable {σ ε : Type} {service : LabelService σ ε} {view : σ → Labelling}
variable (rules : RuleSet) (moment : Moment)

/-- **The second run.** Over a service that never fails, a run right after the same run leaves the
labels as they are. It sends nothing if and only if no message is to be marked both as read and as
unread. -/
theorem sort_twice (never : service.NeverFails) (keeps : service.Keeps view)
    (records : List Record) (s : σ) :
    ∃ first s' second s'', (rules.sort service moment records).run s = (.ok first, s') ∧
      (rules.sort service moment records).run s' = (.ok second, s'') ∧
      view s'' = view s' ∧
      (second.tally.mutations = 0 ↔
        ∀ id, ¬(⟨id, .markAsRead⟩ ∈ rules.errands moment records ∧
          ⟨id, .markAsUnread⟩ ∈ rules.errands moment records)) := by
  obtain ⟨first, s', hfirst, hview, -⟩ := sort_applyAll rules moment never keeps records s
  obtain ⟨second, s'', hsecond⟩ := never.carryOutEach (rules.errands moment records) s'
  obtain ⟨done, -, hview', hall⟩ := keeps.carryOutEach hsecond
  refine ⟨_, s', rules.report moment records second, s'', hfirst, ?_, ?_, ?_⟩
  · rw [run_sort, hsecond]
    rfl
  · rw [hview', hall second rfl, hview, Errand.applyAll_applyAll_of_prefix List.prefix_rfl]
  · have hsettled := keeps.mutations_eq_zero_iff hsecond
    rw [hview] at hsettled
    exact hsettled.trans (Errand.forall_settled_applyAll_iff _ _)

/-- Two records of one message fire opposite rules, so that the second run sends two writes again
and ends with the same labels. -/
theorem sort_twice_of_opposed_rules :
    let rules : RuleSet :=
      [⟨.all, [⟨.subject, "contains", "Invoice"⟩], ["mark_as_read", "move_to_inbox"]⟩,
        ⟨.any, [⟨.sender, "equals", "a@b.c"⟩], ["mark_as_unread"]⟩]
    let moment : Moment := ⟨⟨1718020800, 0⟩, .utc⟩
    let records : List Record :=
      [⟨"1", "a@b.c", "", "Hello", ""⟩, ⟨"1", "", "", "Invoice 7", ""⟩]
    (Memory.service {}).NeverFails ∧ (Memory.service {}).Keeps Memory.view ∧
      ∃ first s' second s'',
        (rules.sort (Memory.service {}) moment records).run ⟨⟨[]⟩, []⟩ = (.ok first, s') ∧
        (rules.sort (Memory.service {}) moment records).run s' = (.ok second, s'') ∧
        s''.view = s'.view ∧ second.tally.mutations ≠ 0 := by
  intro rules moment records
  have never : (Memory.service {}).NeverFails := Memory.neverFails_service fun _ _ ↦ rfl
  have keeps : (Memory.service {}).Keeps Memory.view := Memory.keeps_service rfl
  obtain ⟨first, s', second, s'', hfirst, hsecond, hview, hsilent⟩ :=
    sort_twice rules moment never keeps records ⟨⟨[]⟩, []⟩
  refine ⟨never, keeps, first, s', second, s'', hfirst, hsecond, hview, fun hzero ↦ ?_⟩
  exact hsilent.mp hzero "1" (by decide +kernel)

end RuleSet

end MailRules

import MailRules.Proofs.Sorting.Repetition

/-!
# When the order of errands does not matter

What errands come to can be told from the labelling at the start, without any service: the labelling
they leave (`Errand.applyAll`) and how many of them find their place settled (`Errand.count`). Two
lists of errands are alike if both are the same from any labelling.

Errands for different places do not see each other. Two for one place that ask for the same thing
can be exchanged as well: whichever comes first does the work and the other one is skipped. Only
errands that ask for opposite things have to stay in order, and those are the opposed ones. So whole
lists of errands can be exchanged if no errand of one is opposed to one of the other, and blocks of
errands put in any order if that holds of each two of them (`Errand.alike_flatten_of_perm`). Inside
a block nothing is asked for, so that a block may undo what it did itself.
-/

namespace MailRules

theorem Tally.add_comm (a b : Tally) : a + b = b + a := by
  ext
  · exact Nat.add_comm a.mutations b.mutations
  · exact Nat.add_comm a.skipped b.skipped

namespace Errand

/-! ## Counting without a service -/

open Classical in
/-- An errand that finds its place settled is skipped. -/
noncomputable def countOne (e : Errand) (v : Labelling) : Tally :=
  if e.Settled v then { skipped := 1 } else { mutations := 1 }

/-- What errands are counted as, carried out from a labelling. -/
noncomputable def count : List Errand → Labelling → Tally
  | [], _ => {}
  | e :: es, v => e.countOne v + count es (e.applyTo v)

theorem applyAll_append (es fs : List Errand) (v : Labelling) :
    applyAll (es ++ fs) v = applyAll fs (applyAll es v) := List.foldl_append

theorem count_append (es fs : List Errand) (v : Labelling) :
    count (es ++ fs) v = count es v + count fs (applyAll es v) := by
  induction es generalizing v with
  | nil => exact (Tally.empty_add _).symm
  | cons e es ih => rw [List.cons_append, count, count, ih, applyAll_cons, Tally.add_assoc]

theorem countOne_of_settled {e : Errand} {v : Labelling} (h : e.Settled v) :
    e.countOne v = { skipped := 1 } := by rw [countOne, if_pos h]

theorem countOne_of_not_settled {e : Errand} {v : Labelling} (h : ¬e.Settled v) :
    e.countOne v = { mutations := 1 } := by rw [countOne, if_neg h]

theorem countOne_congr {e f : Errand} {v w : Labelling} (h : e.Settled v ↔ f.Settled w) :
    e.countOne v = f.countOne w := by
  by_cases hsettled : e.Settled v
  · rw [countOne_of_settled hsettled, countOne_of_settled (h.mp hsettled)]
  · rw [countOne_of_not_settled hsettled, countOne_of_not_settled (mt h.mpr hsettled)]

/-! ## Exchanging two errands -/

/-- The two are for different places, or they ask for the same thing. -/
def Commutes (e f : Errand) : Prop :=
  e.id = f.id → e.action.label = f.action.label → e.action.change = f.action.change

theorem Commutes.symm {e f : Errand} (h : e.Commutes f) : f.Commutes e :=
  fun hid hlabel ↦ (h hid.symm hlabel.symm).symm

section Two

variable {e f : Errand}

/-- The two are for one label of one message. -/
def SamePlace (e f : Errand) : Prop := e.id = f.id ∧ e.action.label = f.action.label

theorem targets_iff_samePlace : e.Targets f.id f.action.label.name ↔ e.SamePlace f :=
  and_congr_right fun _ ↦ ⟨Label.name_inj, congrArg Label.name⟩

theorem settled_applyTo_of_samePlace (h : e.SamePlace f) (v : Labelling) :
    f.Settled (e.applyTo v) ↔ (e.action.change = .add ↔ f.action.change = .add) := by
  rw [Settled, mem_applyTo, if_pos (targets_iff_samePlace.mpr h)]

theorem settled_applyTo_of_not_samePlace (h : ¬e.SamePlace f) (v : Labelling) :
    f.Settled (e.applyTo v) ↔ f.Settled v := by
  rw [Settled, mem_applyTo, if_neg (mt targets_iff_samePlace.mp h), Settled]

theorem applyTo_comm (h : e.Commutes f) (v : Labelling) :
    f.applyTo (e.applyTo v) = e.applyTo (f.applyTo v) := by
  funext id
  ext label
  simp only [mem_applyTo]
  by_cases he : e.Targets id label <;> by_cases hf : f.Targets id label
  · rw [if_pos hf, if_pos he,
      h (he.1.trans hf.1.symm) (Label.name_inj (he.2.trans hf.2.symm))]
  · rw [if_neg hf, if_pos he, if_pos he]
  · rw [if_pos hf, if_neg he, if_pos hf]
  · rw [if_neg hf, if_neg he, if_neg he, if_neg hf]

theorem countOne_comm (h : e.Commutes f) (v : Labelling) :
    e.countOne v + f.countOne (e.applyTo v) = f.countOne v + e.countOne (f.applyTo v) := by
  by_cases hplace : e.SamePlace f
  · -- the first of the two finds what the other one would have found, and settles it for both
    have hchange : e.action.change = f.action.change := h hplace.1 hplace.2
    have hsame : e.Settled v ↔ f.Settled v := by
      rw [Settled, Settled, hplace.1, hplace.2, hchange]
    have hf : f.Settled (e.applyTo v) :=
      (settled_applyTo_of_samePlace hplace v).mpr (by rw [hchange])
    have he : e.Settled (f.applyTo v) :=
      (settled_applyTo_of_samePlace ⟨hplace.1.symm, hplace.2.symm⟩ v).mpr (by rw [hchange])
    rw [countOne_congr hsame, countOne_of_settled hf, countOne_of_settled he]
  · have hplace' : ¬f.SamePlace e := fun h ↦ hplace ⟨h.1.symm, h.2.symm⟩
    rw [countOne_congr (settled_applyTo_of_not_samePlace hplace v),
      countOne_congr (settled_applyTo_of_not_samePlace hplace' v), Tally.add_comm]

end Two

/-! ## Exchanging lists of errands -/

/-- The two lists come to the same from any labelling. -/
def Alike (es fs : List Errand) : Prop :=
  ∀ v, applyAll es v = applyAll fs v ∧ count es v = count fs v

namespace Alike

variable {es es' fs fs' gs : List Errand}

theorem refl (es : List Errand) : Alike es es := fun _ ↦ ⟨rfl, rfl⟩

theorem trans (h : Alike es fs) (h' : Alike fs gs) : Alike es gs :=
  fun v ↦ ⟨(h v).1.trans (h' v).1, (h v).2.trans (h' v).2⟩

theorem append (h : Alike es es') (h' : Alike fs fs') : Alike (es ++ fs) (es' ++ fs') := by
  intro v
  rw [applyAll_append, applyAll_append, count_append, count_append, (h v).1, (h v).2, (h' _).1,
    (h' _).2]
  exact ⟨rfl, rfl⟩

end Alike

theorem alike_swap {e f : Errand} (h : e.Commutes f) : Alike [e, f] [f, e] := by
  intro v
  refine ⟨applyTo_comm h v, ?_⟩
  rw [count, count, count, count, count, count, Tally.add_empty, Tally.add_empty, countOne_comm h]

/-- One errand passes a list of errands that it commutes with. -/
theorem alike_cons_append {e : Errand} {fs : List Errand} (h : ∀ f ∈ fs, e.Commutes f) :
    Alike (e :: fs) (fs ++ [e]) := by
  induction fs with
  | nil => exact Alike.refl [e]
  | cons f fs ih =>
    obtain ⟨hf, hfs⟩ := List.forall_mem_cons.mp h
    exact ((alike_swap hf).append (Alike.refl fs)).trans ((Alike.refl [f]).append (ih hfs))

/-- **Lists of errands that commute can be exchanged.** -/
theorem alike_append_comm {es fs : List Errand} (h : ∀ e ∈ es, ∀ f ∈ fs, e.Commutes f) :
    Alike (es ++ fs) (fs ++ es) := by
  induction es with
  | nil => rw [List.nil_append, List.append_nil]; exact Alike.refl fs
  | cons e es ih =>
    obtain ⟨he, hes⟩ := List.forall_mem_cons.mp h
    have hpass : Alike (e :: fs ++ es) (fs ++ [e] ++ es) :=
      (alike_cons_append he).append (Alike.refl es)
    rw [List.append_assoc] at hpass
    exact ((Alike.refl [e]).append (ih hes)).trans hpass

/-- **Blocks of errands can be put in any order** if each two of them commute. -/
theorem alike_flatten_of_perm {blocks blocks' : List (List Errand)} (hperm : blocks.Perm blocks')
    (h : blocks.Pairwise fun es fs ↦ ∀ e ∈ es, ∀ f ∈ fs, e.Commutes f) :
    Alike blocks.flatten blocks'.flatten := by
  induction hperm with
  | nil => exact Alike.refl []
  | cons es _ ih => exact (Alike.refl es).append (ih (List.pairwise_cons.mp h).2)
  | swap es fs blocks =>
    have hes : ∀ f ∈ fs, ∀ e ∈ es, f.Commutes e := (List.pairwise_cons.mp h).1 es List.mem_cons_self
    have hswap := (alike_append_comm hes).append (Alike.refl blocks.flatten)
    rwa [List.append_assoc, List.append_assoc] at hswap
  | trans hperm _ ih ih' =>
    have hsymm : ∀ {es fs : List Errand}, (∀ e ∈ es, ∀ f ∈ fs, e.Commutes f) →
        ∀ f ∈ fs, ∀ e ∈ es, f.Commutes e := fun hes f hf e he ↦ (hes e he f hf).symm
    exact (ih h).trans (ih' ((hperm.pairwise_iff hsymm).mp h))

/-- Errands of which no two are opposed can be put in any order. -/
theorem alike_of_perm {es es' : List Errand} (hperm : es.Perm es') (h : ∀ id, ¬Opposed es id) :
    Alike es es' := by
  have hcommutes : ∀ e ∈ es, ∀ f ∈ es, e.Commutes f := by
    intro e he f hf hid hlabel
    by_cases headd : e.action.change = .add <;> by_cases hfadd : f.action.change = .add
    · rw [headd, hfadd]
    · exact absurd (opposed_of_change_ne he hf hid hlabel headd hfadd) (h e.id)
    · exact absurd (opposed_of_change_ne hf he hid.symm hlabel.symm hfadd headd) (h f.id)
    · rw [eq_markAsRead headd, eq_markAsRead hfadd]
  have hpairwise : (es.map ([·])).Pairwise fun es fs ↦ ∀ e ∈ es, ∀ f ∈ fs, e.Commutes f :=
    List.pairwise_map.mpr (List.pairwise_of_forall_mem_list fun e he f hf ↦ by
      simpa using hcommutes e he f hf)
  have halike := alike_flatten_of_perm (hperm.map ([·])) hpairwise
  rwa [← List.flatMap_def, ← List.flatMap_def, List.flatMap_singleton', List.flatMap_singleton']
    at halike

end Errand

/-! ## Over a service -/

namespace LabelService.Keeps

variable {σ ε : Type} {service : LabelService σ ε} {view : σ → Labelling} {s s' : σ}

theorem tally_eq_countOne (keeps : service.Keeps view) {e : Errand} {tally : Tally}
    (h : (service.carryOut e.id e.action).run s = (.ok tally, s')) :
    tally = e.countOne (view s) := by
  have htotal : tally.mutations + tally.skipped = 1 := total_of_carryOut h
  have hzero : tally.mutations = 0 ↔ e.Settled (view s) := keeps.carryOut_settled h
  by_cases hsettled : e.Settled (view s)
  · have hnone : tally.mutations = 0 := hzero.mpr hsettled
    rw [Errand.countOne_of_settled hsettled]
    ext <;> dsimp only <;> omega
  · have hsome : tally.mutations ≠ 0 := mt hzero.mp hsettled
    rw [Errand.countOne_of_not_settled hsettled]
    ext <;> dsimp only <;> omega

/-- **The tally can be told from the labelling at the start.** -/
theorem tally_eq_count (keeps : service.Keeps view) {es : List Errand} {tally : Tally}
    (h : (service.carryOutEach es).run s = (.ok tally, s')) :
    tally = Errand.count es (view s) := by
  induction es generalizing s tally with
  | nil =>
    obtain ⟨rfl, -⟩ : ({} : Tally) = tally ∧ s = s' := by
      simpa [LabelService.carryOutEach] using h
    rfl
  | cons e es ih =>
    rcases carryOutEach_cons_cases h with ⟨err, -, hr⟩ | ⟨first, t, rest, hfirst, hrest, hr⟩
    · cases hr
    · cases rest with
      | error err => cases hr
      | ok rest =>
        obtain rfl : tally = first + rest := Except.ok.inj hr
        have hview : view t = e.applyTo (view s) := by
          rcases keeps.carryOut hfirst with hdone | ⟨⟨err, herr⟩, -⟩
          · exact hdone
          · cases herr
        rw [Errand.count, keeps.tally_eq_countOne hfirst, ih hrest, hview]

end LabelService.Keeps

/-- A run over a service that never fails, told from the labelling at its start. -/
theorem RuleSet.sort_outcome {σ ε : Type} {service : LabelService σ ε} {view : σ → Labelling}
    (never : service.NeverFails) (keeps : service.Keeps view) (rules : RuleSet) (moment : Moment)
    (records : List Record) (s : σ) :
    ∃ s', (rules.sort service moment records).run s =
        (.ok (rules.report moment records
          (Errand.count (rules.errands moment records) (view s))), s') ∧
      view s' = Errand.applyAll (rules.errands moment records) (view s) := by
  obtain ⟨tally, s', hrun⟩ := never.carryOutEach (rules.errands moment records) s
  obtain ⟨done, -, hview, hall⟩ := keeps.carryOutEach hrun
  refine ⟨s', ?_, ?_⟩
  · rw [run_sort, hrun, keeps.tally_eq_count hrun]
    rfl
  · rw [hview, hall tally rfl]

end MailRules

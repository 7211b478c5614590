import Mathlib
import MailRules.Proofs.Label.Transcript

/-!
# What is asked of a label service

Nothing is assumed of a label service: what it reads out need not be what was written to it, and any
call may fail. All the more has to be said of what it is asked. For every action the labels of the
message are read, and then, if the answer calls for it, the one label is written and nothing else
(`Turn`). The actions are taken in turn up to the first call that fails (`Course`).

A transcript of a service that is watched is such a course, whatever the service does
(`LabelService.course_of_run`). What can be seen in a course is shown of one turn first and then by
induction over the turns, since a turn begins with a read: no write is there without the read that
calls for it directly before it, and no other message comes up.
-/

namespace MailRules

/-! ## Turns -/

/-- The labels are not as the action asks: its label is missing, or it is there to be taken off. -/
def Action.Unmet (a : Action) (labels : List String) : Prop :=
  a.change = .add ∧ a.label.name ∉ labels ∨ a.change = .remove ∧ a.label.name ∈ labels

namespace LabelService

variable {σ ε : Type}

theorem changes_eq_true_iff {a : Action} {labels : List String} :
    changes a labels = true ↔ a.Unmet labels := by
  rw [changes, Action.Unmet]
  cases a.change <;> simp

namespace Exchange

/-- The write that an action comes to. -/
def writing (id : String) (a : Action) (answer : Except ε Unit) : Exchange ε :=
  match a.change with
  | .add => .add id a.label answer
  | .remove => .remove id a.label answer

def id : Exchange ε → String
  | labels id _ | add id _ _ | remove id _ _ => id

def isWrite : Exchange ε → Bool
  | labels _ _ => false
  | add _ _ _ | remove _ _ _ => true

/-- The error that a call ended with. -/
def error? : Exchange ε → Option ε
  | labels _ (.error e) | add _ _ (.error e) | remove _ _ (.error e) => some e
  | labels _ (.ok _) | add _ _ (.ok _) | remove _ _ (.ok _) => none

variable {i : String} {a : Action} {answer : Except ε Unit}

@[simp] theorem id_labels (answer : Except ε (List String)) : (labels i answer).id = i := rfl

@[simp] theorem isWrite_labels (answer : Except ε (List String)) :
    (labels i answer).isWrite = false := rfl

@[simp] theorem error?_labels_ok (read : List String) :
    (labels i (.ok read) : Exchange ε).error? = none := rfl

@[simp] theorem error?_labels_error (e : ε) : (labels i (.error e)).error? = some e := rfl

@[simp] theorem id_writing : (writing i a answer).id = i := by
  rw [writing]
  cases a.change <;> rfl

@[simp] theorem isWrite_writing : (writing i a answer).isWrite = true := by
  rw [writing]
  cases a.change <;> rfl

@[simp] theorem error?_writing_ok : (writing i a (.ok ()) : Exchange ε).error? = none := by
  rw [writing]
  cases a.change <;> rfl

@[simp] theorem error?_writing_error (e : ε) : (writing i a (.error e)).error? = some e := by
  rw [writing]
  cases a.change <;> rfl

end Exchange

/-- What may be asked for one action, and what comes of it. -/
inductive Turn (id : String) (a : Action) : List (Exchange ε) → Except ε Tally → Prop
  | unread (e : ε) : Turn id a [.labels id (.error e)] (.error e)
  | met (labels : List String) (met : ¬a.Unmet labels) :
      Turn id a [.labels id (.ok labels)] (.ok { skipped := 1 })
  | unwritten (labels : List String) (unmet : a.Unmet labels) (e : ε) :
      Turn id a [.labels id (.ok labels), .writing id a (.error e)] (.error e)
  | written (labels : List String) (unmet : a.Unmet labels) :
      Turn id a [.labels id (.ok labels), .writing id a (.ok ())] (.ok { mutations := 1 })

/-- What may be asked for a list of actions, and what comes of it. -/
inductive Course (id : String) : List Action → List (Exchange ε) → Except ε Tally → Prop
  | done : Course id [] [] (.ok {})
  | stopped {a : Action} {transcript : List (Exchange ε)} {e : ε}
      (turn : Turn id a transcript (.error e)) (rest : List Action) :
      Course id (a :: rest) transcript (.error e)
  | next {a : Action} {first others : List (Exchange ε)} {tally : Tally} {actions : List Action}
      {result : Except ε Tally} (turn : Turn id a first (.ok tally))
      (rest : Course id actions others result) :
      Course id (a :: actions) (first ++ others) (result.map (tally + ·))

/-! ## Runs -/

section Runs

variable {service : LabelService σ ε} {id : String} {a : Action} {actions : List Action}
  {w w' : σ × List (Exchange ε)}

theorem snd_of_labels {answer : Except ε (List String)}
    (h : (service.watched.labels id).run w = (answer, w')) :
    w'.2 = w.2 ++ [.labels id answer] := by
  obtain ⟨rfl, rfl⟩ := Prod.mk.inj h
  rfl

theorem snd_of_write {answer : Except ε Unit}
    (h : (service.watched.write id a).run w = (answer, w')) :
    w'.2 = w.2 ++ [.writing id a answer] := by
  rw [write] at h
  rw [Exchange.writing]
  cases hchange : a.change with
  | add =>
    rw [hchange] at h
    obtain ⟨rfl, rfl⟩ := Prod.mk.inj h
    rfl
  | remove =>
    rw [hchange] at h
    obtain ⟨rfl, rfl⟩ := Prod.mk.inj h
    rfl

theorem turn_of_run {r : Except ε Tally}
    (h : (service.watched.carryOut id a).run w = (r, w')) :
    ∃ more, w'.2 = w.2 ++ more ∧ Turn id a more r := by
  rcases carryOut_cases h with ⟨e, hread, rfl⟩ | ⟨labels, t, hread, hrest⟩
  · exact ⟨_, snd_of_labels hread, .unread e⟩
  · have ht := snd_of_labels hread
    rcases hrest with ⟨hmet, rfl, rfl⟩ | ⟨hunmet, hwrite⟩
    · refine ⟨_, ht, .met labels ?_⟩
      rw [← changes_eq_true_iff, hmet]
      exact Bool.false_ne_true
    · have hunmet := changes_eq_true_iff.mp hunmet
      rcases hwrite with ⟨e, hwrite, rfl⟩ | ⟨hwrite, rfl⟩
      · refine ⟨_, ?_, .unwritten labels hunmet e⟩
        rw [snd_of_write hwrite, ht, List.append_assoc, List.singleton_append]
      · refine ⟨_, ?_, .written labels hunmet⟩
        rw [snd_of_write hwrite, ht, List.append_assoc, List.singleton_append]

/-- **Whatever a service does, it is asked in a course.** -/
theorem course_of_run {r : Except ε Tally}
    (h : (service.watched.carryOutAll id actions).run w = (r, w')) :
    ∃ more, w'.2 = w.2 ++ more ∧ Course id actions more r := by
  induction actions generalizing w r with
  | nil =>
    obtain ⟨rfl, rfl⟩ := Prod.mk.inj h
    exact ⟨[], (List.append_nil _).symm, .done⟩
  | cons a actions ih =>
    rw [carryOutAll_eq_carryOutEach, List.map_cons] at h
    rcases carryOutEach_cons_cases h with ⟨e, hfirst, rfl⟩ | ⟨tally, t, rest, hfirst, hrest, rfl⟩
    · obtain ⟨more, hmore, hturn⟩ := turn_of_run hfirst
      exact ⟨more, hmore, .stopped hturn actions⟩
    · rw [← carryOutAll_eq_carryOutEach] at hrest
      obtain ⟨first, ht, hturn⟩ := turn_of_run hfirst
      obtain ⟨others, hothers, hcourse⟩ := ih hrest
      refine ⟨first ++ others, ?_, .next hturn hcourse⟩
      rw [hothers, ht, List.append_assoc]

end Runs

/-! ## What is seen in a course -/

namespace Exchange

/-- The first exchange is a read that calls for the second, if that is a write. -/
def Precedes (id : String) (x y : Exchange ε) : Prop :=
  y.isWrite = true → ∃ (a : Action) (read : List String) (answer : Except ε Unit),
    a.Unmet read ∧ x = .labels id (.ok read) ∧ y = .writing id a answer

/-- A failing call is the last one and gives the result its error. -/
def Ends (transcript : List (Exchange ε)) : Except ε Tally → Prop
  | .ok _ => ∀ x ∈ transcript, x.error? = none
  | .error e => ∃ before x, transcript = before ++ [x] ∧ (∀ y ∈ before, y.error? = none) ∧
      x.error? = some e

theorem Ends.append {first others : List (Exchange ε)} {tally : Tally} {result : Except ε Tally}
    (hfirst : Ends first (.ok tally)) (h : Ends others result) (f : Tally → Tally) :
    Ends (first ++ others) (result.map f) := by
  cases result with
  | ok more => exact List.forall_mem_append.mpr ⟨hfirst, h⟩
  | error e =>
    obtain ⟨before, x, rfl, hbefore, hx⟩ := h
    exact ⟨first ++ before, x, (List.append_assoc _ _ _).symm,
      List.forall_mem_append.mpr ⟨hfirst, hbefore⟩, hx⟩

end Exchange

namespace Turn

variable {id : String} {a : Action} {transcript : List (Exchange ε)} {result : Except ε Tally}

theorem id_eq (h : Turn id a transcript result) : ∀ x ∈ transcript, x.id = id := by
  cases h <;> simp

/-- A turn begins with the read of the labels. -/
theorem exists_cons (h : Turn id a transcript result) :
    ∃ answer others, transcript = .labels id answer :: others := by
  cases h <;> exact ⟨_, _, rfl⟩

theorem isChain (h : Turn id a transcript result) :
    transcript.IsChain (Exchange.Precedes id) := by
  cases h with
  | unread e => exact List.isChain_singleton _
  | met read met => exact List.isChain_singleton _
  | unwritten read unmet e =>
    exact List.isChain_pair.mpr fun _ ↦ ⟨a, read, .error e, unmet, rfl, rfl⟩
  | written read unmet =>
    exact List.isChain_pair.mpr fun _ ↦ ⟨a, read, .ok (), unmet, rfl, rfl⟩

theorem ends (h : Turn id a transcript result) : Exchange.Ends transcript result := by
  cases h with
  | unread e => exact ⟨[], _, rfl, by simp, rfl⟩
  | met read met => simp [Exchange.Ends]
  | unwritten read unmet e => exact ⟨[_], _, rfl, by simp, Exchange.error?_writing_error e⟩
  | written read unmet => simp [Exchange.Ends]

theorem counts {tally : Tally} (h : Turn id a transcript (.ok tally)) :
    transcript.countP (!·.isWrite) = 1 ∧ transcript.countP (·.isWrite) = tally.mutations ∧
      tally.mutations + tally.skipped = 1 := by
  cases h <;> simp

end Turn

namespace Course

variable {id : String} {actions : List Action} {transcript : List (Exchange ε)}
  {result : Except ε Tally}

theorem id_eq (h : Course id actions transcript result) : ∀ x ∈ transcript, x.id = id := by
  induction h with
  | done => simp
  | stopped turn rest => exact turn.id_eq
  | next turn rest ih => exact List.forall_mem_append.mpr ⟨turn.id_eq, ih⟩

theorem isWrite_head (h : Course id actions transcript result) :
    ∀ x ∈ transcript.head?, x.isWrite = false := by
  cases h with
  | done => simp
  | stopped turn rest =>
    obtain ⟨answer, others, rfl⟩ := turn.exists_cons
    simp
  | next turn rest =>
    obtain ⟨answer, others, rfl⟩ := turn.exists_cons
    simp

theorem isChain (h : Course id actions transcript result) :
    transcript.IsChain (Exchange.Precedes id) := by
  induction h with
  | done => exact List.isChain_nil
  | stopped turn rest => exact turn.isChain
  | next turn rest ih =>
    -- the next turn begins with a read, of which nothing is asked
    refine List.isChain_append.mpr ⟨turn.isChain, ih, fun x _ y hy hwrite ↦ ?_⟩
    rw [rest.isWrite_head y hy] at hwrite
    cases hwrite

theorem ends (h : Course id actions transcript result) : Exchange.Ends transcript result := by
  induction h with
  | done => simp [Exchange.Ends]
  | stopped turn rest => exact turn.ends
  | next turn rest ih => exact turn.ends.append ih _

theorem counts (h : Course id actions transcript result) {tally : Tally}
    (hresult : result = .ok tally) :
    transcript.countP (!·.isWrite) = actions.length ∧
      transcript.countP (·.isWrite) = tally.mutations ∧
      tally.mutations + tally.skipped = actions.length := by
  induction h generalizing tally with
  | done =>
    obtain rfl := Except.ok.inj hresult
    simp
  | stopped turn rest => cases hresult
  | @next a first others tally' actions result turn rest ih =>
    cases result with
    | error e => cases hresult
    | ok more =>
      obtain rfl : tally' + more = tally := Except.ok.inj hresult
      have hturn := turn.counts
      have hrest := ih rfl
      simp only [List.countP_append, List.length_cons, Tally.mutations_add, Tally.skipped_add]
      omega

end Course

/-- **The discipline of calls, whatever the service.** For the actions in order the labels of the
message are read, once for each, and a write of the action's label follows exactly if the labels
just read ask for it; the first call that fails ends this with its error. What is written down is
what is done over the service by itself. No call is for another message, no write comes without the
read directly before it that calls for it, and if no call fails the tally counts the writes and the
actions without one. -/
theorem carryOutAll_disciplined (service : LabelService σ ε) (id : String) (actions : List Action)
    (s : σ) :
    ∃ transcript, (service.watched.carryOutAll id actions).run (s, []) =
        (((service.carryOutAll id actions).run s).1, ((service.carryOutAll id actions).run s).2,
          transcript) ∧
      Course id actions transcript ((service.carryOutAll id actions).run s).1 ∧
      (∀ x ∈ transcript, x.id = id) ∧
      (∀ x ∈ transcript.head?, x.isWrite = false) ∧
      transcript.IsChain (Exchange.Precedes id) ∧
      Exchange.Ends transcript ((service.carryOutAll id actions).run s).1 ∧
      ∀ tally, ((service.carryOutAll id actions).run s).1 = .ok tally →
        transcript.countP (!·.isWrite) = actions.length ∧
        transcript.countP (·.isWrite) = tally.mutations ∧
        tally.mutations + tally.skipped = actions.length := by
  have hfollows : Follows Prod.fst (s, []) (service.watched.carryOutAll id actions)
      (service.carryOutAll id actions) := by
    rw [carryOutAll_eq_carryOutEach, carryOutAll_eq_carryOutEach]
    exact (shadows_watched service).carryOutEach (s, []) _
  rw [Follows] at hfollows
  obtain ⟨transcript, hmore, hcourse⟩ :=
    course_of_run (rfl : (service.watched.carryOutAll id actions).run (s, []) = _)
  obtain rfl : _ = transcript := hmore
  rw [hfollows]
  exact ⟨_, rfl, hcourse, hcourse.id_eq, hcourse.isWrite_head, hcourse.isChain, hcourse.ends,
    fun tally htally ↦ hcourse.counts htally⟩

end LabelService

end MailRules

import Mathlib
import MailRules.Proofs.Mailbox.Caller
import MailRules.Proofs.Mailbox.Timeliness

/-!
# Callers that share a client

Several callers use one client at the same time, and a schedule says whose move is next
(`Client.interleave`). A caller that is let through to its end does just what `send` does
(`interleave_alone`).

The lock puts the refreshes one behind the other. Nobody exchanges a refresh token that was replaced
meanwhile, and the tokens that are held are those of the last exchange that was saved (`Orderly`).
It does not make one refresh do for all. Whether tokens are about to expire is seen before the lock
is asked for and is not looked at again once it is there, so every caller that has seen it makes an
exchange of its own (`Client.callers_renew_each`). Two that have looked before either has come to
the lock make two (`Client.callers_renew_twice`).

What is seen of the callers is written down in the order in which it happens, and all that is said
of a run is said of this chronicle.
-/

namespace MailRules.Mailbox

open Http (Request Response)
open Calendar (Instant)

variable {ι ω : Type}

/-! ## The chronicle -/

/-- The tokens of an event that were held after it and not before. -/
def replaced? (event : ι × Act) : Option Tokens :=
  match event.2 with
  | .replaced fresh => some fresh
  | _ => none

/-- Who has made an exchange in an event, and of what for what. -/
def renewal? (event : ι × Act) : Option (ι × Tokens × Tokens) :=
  match event.2 with
  | .exchanged old fresh => some (event.1, old, fresh)
  | _ => none

/-- The tokens that are held after this. -/
def latest (start : Tokens) (history : List (ι × Act)) : Tokens :=
  (history.filterMap replaced?).getLastD start

def lastRenewal? (history : List (ι × Act)) : Option (ι × Tokens × Tokens) :=
  (history.filterMap renewal?).getLast?

/-- How an act stands to those before it. The tokens that a caller finds or exchanges are those held
then, and those that it replaces them by come of the last exchange, which was its own. -/
def Orderly (start : Tokens) (before : List (ι × Act)) (event : ι × Act) : Prop :=
  match event with
  | (_, .found tokens _) | (_, .exchanged tokens _) => tokens = latest start before
  | (i, .replaced fresh) => ∃ old, lastRenewal? before = some (i, old, fresh)
  | (_, .asked ..) => True

section Chronicle

variable {client : Client} {host : Host ω} {request : String → Option Request}
  {start fresh : Tokens} {history : List (ι × Act)} {phase : Phase} {move : Move ω} {i : ι}

theorem latest_append (start : Tokens) (history : List (ι × Act)) (i : ι) (act : Option Act) :
    latest start (history ++ (act.map (i, ·)).toList) =
      (act.bind fun act ↦ replaced? (i, act)).getD (latest start history) := by
  cases act with
  | none => simp
  | some act =>
    rw [latest, List.filterMap_append]
    cases h : replaced? (i, act) <;> simp [h, latest]

theorem lastRenewal?_append (history : List (ι × Act)) (i : ι) (act : Option Act) :
    lastRenewal? (history ++ (act.map (i, ·)).toList) =
      (act.bind fun act ↦ renewal? (i, act)).or (lastRenewal? history) := by
  cases act with
  | none => simp
  | some act =>
    rw [lastRenewal?, List.filterMap_append]
    cases h : renewal? (i, act) <;> simp [h, lastRenewal?]

/-- The tokens change where it is written down. -/
theorem Moved.tokens_eq {s : Session ω} (h : Moved client host request s phase move) (i : ι) :
    move.session.tokens = (move.act.bind fun act ↦ replaced? (i, act)).getD s.tokens := by
  cases h <;> rfl

/-- An exchange is made by a caller that has the lock. -/
theorem Moved.holds_of_renewal {s : Session ω} (h : Moved client host request s phase move)
    (hrenewal : (move.act.bind fun act ↦ renewal? (i, act)) ≠ none) : phase.holds := by
  cases h with
  | exchanged => rfl
  | _ => exact absurd rfl hrenewal

theorem Moved.lastRenewal?_eq {s : Session ω} (h : Moved client host request s phase move)
    (hfetched : move.phase.fetched? = some fresh)
    (hbefore : phase.fetched? = some fresh → ∃ old, lastRenewal? history = some (i, old, fresh)) :
    ∃ old, lastRenewal? (history ++ (move.act.map (i, ·)).toList) = some (i, old, fresh) := by
  rw [lastRenewal?_append]
  cases h with
  | exchanged =>
    obtain rfl := Option.some.inj hfetched
    exact ⟨_, rfl⟩
  | saved => exact hbefore hfetched
  | _ => cases hfetched

theorem Moved.orderly {s : Session ω} (h : Moved client host request s phase move)
    (htokens : s.tokens = latest start history)
    (hfetched : ∀ fresh, phase.fetched? = some fresh →
      ∃ old, lastRenewal? history = some (i, old, fresh)) :
    Throughout (fun before event ↦ Orderly start (history ++ before) event)
      (move.act.map (i, ·)).toList := by
  cases h with
  | taken | refused | unsaved | saved | released | unsent | ended => exact throughout_nil
  | endless | lasting | due | exchanged =>
    refine Throughout.cons ?_ throughout_nil
    rw [List.append_nil]
    exact htokens
  | replaced =>
    refine Throughout.cons ?_ throughout_nil
    rw [List.append_nil]
    exact hfetched _ rfl
  | unanswered | denied | deniedAgain | answered => exact Throughout.cons trivial throughout_nil

end Chronicle

/-! ## Schedules -/

/-- The callers of a client, with what they have done so far. -/
structure Callers (ι ω : Type) where
  session : Session ω
  writer : Option ι
  phase : ι → Phase
  history : List (ι × Act)

/-- All callers are about to begin. -/
def Callers.atStart (session : Session ω) : Callers ι ω := ⟨session, none, fun _ ↦ .start, []⟩

variable [DecidableEq ι]

/-- A caller that comes to have the lock is its writer, and one that comes to have it no more leaves
it to the others. -/
def Callers.after (s : Callers ι ω) (i : ι) (move : Move ω) : Callers ι ω where
  session := move.session
  writer := if move.phase.holds then some i else if (s.phase i).holds then none else s.writer
  phase := Function.update s.phase i move.phase
  history := s.history ++ (move.act.map (i, ·)).toList

/-- The next move of one caller. It stays where it is if it has to wait for the lock. -/
def Client.advance (client : Client) (host : Host ω) (request : ι → String → Option Request)
    (i : ι) (s : Callers ι ω) : Callers ι ω :=
  if (s.phase i).waits ∧ s.writer.isSome then s
  else s.after i ((s.phase i).move client host (request i) s.session)

/-- The callers make their moves in this order. -/
def Client.interleave (client : Client) (host : Host ω) (request : ι → String → Option Request)
    (schedule : List ι) (s : Callers ι ω) : Callers ι ω :=
  schedule.foldl (fun s i ↦ client.advance host request i s) s

variable {client : Client} {host : Host ω} {request : ι → String → Option Request}
  {s : Callers ι ω} {i j : ι} {move : Move ω} {start : Tokens}

@[simp] theorem Callers.after_phase_self : (s.after i move).phase i = move.phase :=
  Function.update_self ..

@[simp] theorem Callers.after_history :
    (s.after i move).history = s.history ++ (move.act.map (i, ·)).toList := rfl

theorem Callers.after_phase_of_ne (h : j ≠ i) : (s.after i move).phase j = s.phase j :=
  Function.update_of_ne h ..

/-- **A property that every move keeps is kept by every schedule.** -/
theorem Client.interleave_induction {P : Callers ι ω → Prop}
    (hstep : ∀ s i move, P s → ((s.phase i).waits → s.writer = none) →
      Moved client host (request i) s.session (s.phase i) move → P (s.after i move))
    (h : P s) (schedule : List ι) : P (client.interleave host request schedule s) := by
  induction schedule generalizing s with
  | nil => exact h
  | cons i schedule ih =>
    refine ih ?_
    change P (client.advance host request i s)
    rw [Client.advance]
    split
    · exact h
    · rename_i hfree
      refine hstep s i _ h (fun hwaits ↦ ?_) (moved_move ..)
      exact Option.not_isSome_iff_eq_none.mp fun hwriter ↦ hfree ⟨hwaits, hwriter⟩

/-! ## The lock -/

/-- The writer is the one that has the lock. -/
def Callers.Locked (s : Callers ι ω) : Prop := ∀ i, s.writer = some i ↔ (s.phase i).holds

omit [DecidableEq ι] in
theorem Callers.Locked.eq (h : s.Locked) (hi : (s.phase i).holds) (hj : (s.phase j).holds) :
    i = j :=
  Option.some.inj (((h i).mpr hi).symm.trans ((h j).mpr hj))

/-- The caller that moves has the lock, or nobody has it and it asks for it, or it has nothing to do
with it. -/
theorem Callers.Locked.after (h : s.Locked) (hfree : (s.phase i).waits → s.writer = none)
    (hmoved : Moved client host (request i) s.session (s.phase i) move) :
    (s.after i move).Locked := by
  intro j
  by_cases hj : j = i
  · subst hj
    rw [after_phase_self, Callers.after]
    by_cases hnext : move.phase.holds
    · simp [hnext]
    · by_cases hnow : (s.phase j).holds
      · simp [hnext, hnow]
      · simpa [hnext, hnow] using (h j).not.mpr hnow
  · rw [after_phase_of_ne hj, ← h j, Callers.after]
    -- the caller that moves is not `j`, so `j` has the lock only if this one did not touch it
    have hother : (s.phase i).holds → s.writer = some i := (h i).mpr
    by_cases hnext : move.phase.holds
    · rcases hmoved.holds hnext with hnow | hwaits
      · simp [hnext, hother hnow]
      · simp [hnext, hfree hwaits, Ne.symm hj]
    · by_cases hnow : (s.phase i).holds
      · simp [hnext, hnow, hother hnow, Ne.symm hj]
      · simp [hnext, hnow]

/-! ## What a run keeps -/

/-- What this caller has done. -/
def actsOf (i : ι) (history : List (ι × Act)) : List Act :=
  (history.filter fun event ↦ event.1 = i).map Prod.snd

@[simp] theorem actsOf_append (i : ι) (history later : List (ι × Act)) :
    actsOf i (history ++ later) = actsOf i history ++ actsOf i later := by
  simp [actsOf]

theorem actsOf_toList (i j : ι) (act : Option Act) :
    actsOf j (act.map (i, ·)).toList = if i = j then act.toList else [] := by
  cases act with
  | none => simp [actsOf]
  | some act => by_cases hij : i = j <;> simp [actsOf, hij]

theorem Story.after (h : ∀ j, Story (s.phase j) (actsOf j s.history))
    (hmoved : Moved client host (request i) s.session (s.phase i) move) (j : ι) :
    Story ((s.after i move).phase j) (actsOf j (s.after i move).history) := by
  rw [Callers.after_history, actsOf_append, actsOf_toList]
  by_cases hj : j = i
  · subst hj
    rw [Callers.after_phase_self, if_pos rfl]
    exact (h j).step hmoved
  · rw [Callers.after_phase_of_ne hj, if_neg (Ne.symm hj), List.append_nil]
    exact h j

/-- What was written down tells which tokens are held and which are about to be. -/
structure Callers.Chronicled (start : Tokens) (s : Callers ι ω) : Prop where
  tokens_eq : s.session.tokens = latest start s.history
  fetched : ∀ i fresh, (s.phase i).fetched? = some fresh →
    ∃ old, lastRenewal? s.history = some (i, old, fresh)
  orderly : Throughout (Orderly start) s.history

/-- **The chronicle goes on.** Nobody else makes an exchange while a caller has tokens that it has
not put in their place yet. -/
theorem Callers.Chronicled.after (h : s.Chronicled start) (hlocked : s.Locked)
    (hmoved : Moved client host (request i) s.session (s.phase i) move) :
    (s.after i move).Chronicled start where
  tokens_eq := by
    rw [after_history, latest_append, ← h.tokens_eq]
    exact hmoved.tokens_eq i
  fetched j fresh hfetched := by
    rw [after_history]
    by_cases hj : j = i
    · subst hj
      rw [after_phase_self] at hfetched
      exact hmoved.lastRenewal?_eq hfetched (h.fetched j fresh)
    · rw [after_phase_of_ne hj] at hfetched
      -- whoever makes an exchange has the lock, and it is this other caller that has it
      have hnone : (move.act.bind fun act ↦ renewal? (i, act)) = none := by
        by_contra hrenewal
        have hholds : (s.phase j).holds := Phase.holds_of_fetched hfetched
        exact hj (hlocked.eq hholds (hmoved.holds_of_renewal hrenewal))
      rw [lastRenewal?_append, hnone, Option.none_or]
      exact h.fetched j fresh hfetched
  orderly := h.orderly.append (hmoved.orderly h.tokens_eq (h.fetched i))

/-- What every run keeps: the lock has one owner, the tokens are those that the chronicle tells, and
every caller has done what has brought it to where it is. -/
structure Callers.Sound (start : Tokens) (s : Callers ι ω) : Prop
    extends Callers.Chronicled start s where
  locked : s.Locked
  story : ∀ i, Story (s.phase i) (actsOf i s.history)

theorem Callers.sound_atStart (start : Tokens) (w : ω) :
    (Callers.atStart ⟨start, w⟩ : Callers ι ω).Sound start where
  tokens_eq := rfl
  fetched i fresh h := by cases h
  orderly := throughout_nil
  locked i := by simp [Callers.atStart, Phase.holds]
  story i := .start

theorem Callers.Sound.interleave (h : s.Sound start) (schedule : List ι) :
    (client.interleave host request schedule s).Sound start :=
  Client.interleave_induction (P := Callers.Sound start)
    (fun _ _ _ h hfree hmoved ↦ ⟨h.after h.locked hmoved, h.locked.after hfree hmoved,
      Story.after h.story hmoved⟩) h schedule

/-- **A caller that is let through to its end does what is left of its call**, and nothing else. -/
theorem Client.interleave_alone (n : ℕ) (hrank : (s.phase i).rank ≤ n)
    (hwriter : s.writer = if (s.phase i).holds then some i else none) :
    let outcome := ((s.phase i).rest client host (request i)).run s.session
    let after := client.interleave host request (List.replicate n i) s
    after.phase i = .done outcome.1 ∧ after.session = outcome.2 := by
  induction n generalizing s with
  | zero =>
    obtain ⟨result, hdone⟩ := Phase.eq_done_of_rank_eq_zero (Nat.le_zero.mp hrank)
    rw [hdone, Phase.rest, Step.run_liftExcept]
    exact ⟨hdone, rfl⟩
  | succ n ih =>
    have hmoved := moved_move client host (request i) (s.phase i) s.session
    have hadvance : client.advance host request i s =
        s.after i ((s.phase i).move client host (request i) s.session) := by
      rw [Client.advance, if_neg]
      -- a caller that waits has no lock, and then nobody has
      rintro ⟨hwaits, hsome⟩
      rw [hwriter] at hsome
      cases hphase : s.phase i <;> simp [hphase, Phase.waits, Phase.holds] at hwaits hsome
    rw [hmoved.run_rest]
    generalize (s.phase i).move client host (request i) s.session = move at hmoved hadvance ⊢
    have hnext := ih (s := s.after i move)
    rw [Callers.after_phase_self] at hnext
    rw [List.replicate_succ]
    change _ ∧ _
    rw [Client.interleave, List.foldl_cons, hadvance]
    refine hnext (hmoved.rank_le.trans (Nat.sub_le_of_le_add hrank)) ?_
    rw [Callers.after, hwriter]
    cases (s.phase i).holds <;> rfl

/-! ## Exchanges -/

/-- How many acts of this kind there are. -/
def tally (kind : Act → Bool) (history : List (ι × Act)) : ℕ :=
  history.countP fun event ↦ kind event.2

theorem mem_actsOf {act : Act} {history : List (ι × Act)} :
    act ∈ actsOf i history ↔ (i, act) ∈ history := by
  simp [actsOf]

theorem countP_actsOf (kind : Act → Bool) (i : ι) (history : List (ι × Act)) :
    (actsOf i history).countP kind = history.countP fun event ↦ event.1 = i ∧ kind event.2 := by
  rw [actsOf, List.countP_map, List.countP_filter]
  simp [Bool.and_comm]

/-- Each act is that of one caller. -/
theorem tally_eq_sum [Fintype ι] (kind : Act → Bool) (history : List (ι × Act)) :
    tally kind history = ∑ i, (actsOf i history).countP kind := by
  simp only [countP_actsOf, tally]
  induction history with
  | nil => simp
  | cons event history ih =>
    simp only [List.countP_cons, ih, Finset.sum_add_distrib]
    cases kind event.2 <;> simp

omit [DecidableEq ι] in
theorem eq_of_tally_eq_one {kind : Act → Bool} {history : List (ι × Act)}
    (h : tally kind history = 1) {event event' : ι × Act} (hmem : event ∈ history)
    (hmem' : event' ∈ history) (hkind : kind event.2) (hkind' : kind event'.2) :
    event = event' := by
  rw [tally, List.countP_eq_length_filter, List.length_eq_one_iff] at h
  obtain ⟨only, honly⟩ := h
  have hall {event : ι × Act} (hmem : event ∈ history) (hkind : kind event.2) : event = only :=
    List.mem_singleton.mp (honly ▸ List.mem_filter.mpr ⟨hmem, hkind⟩)
  rw [hall hmem hkind, hall hmem' hkind']

omit [DecidableEq ι] in
/-- Tokens that a caller finds are those of the start or have been exchanged for others. -/
theorem Callers.Chronicled.of_found (h : s.Chronicled start) {tokens : Tokens} {now : Instant}
    (hfound : (i, .found tokens now) ∈ s.history) :
    tokens = start ∨ ∃ k old, (k, Act.exchanged old tokens) ∈ s.history := by
  obtain ⟨before, later, hsplit⟩ := List.append_of_mem hfound
  have htokens : tokens = latest start before := h.orderly before _ later hsplit
  rcases List.mem_cons.mp (List.getLastD_mem_cons (l := before.filterMap replaced?) (a := start))
    with hstart | hreplaced
  · exact Or.inl (htokens.trans hstart)
  · obtain ⟨⟨k, act⟩, hmem, hact⟩ := List.mem_filterMap.mp hreplaced
    obtain rfl : act = .replaced tokens := by
      cases act <;> cases hact
      rw [htokens]; rfl
    obtain ⟨earlier, between, hbefore⟩ := List.append_of_mem hmem
    have hlast : ∃ old, lastRenewal? earlier = some (k, old, tokens) :=
      h.orderly earlier (k, .replaced tokens) (between ++ (i, .found tokens now) :: later) (by
        rw [hsplit, hbefore, List.append_assoc]; rfl)
    obtain ⟨old, hlast⟩ := hlast
    obtain ⟨⟨k', act⟩, hmem', hrenewal⟩ := List.mem_filterMap.mp (List.mem_of_getLast? hlast)
    obtain ⟨rfl, rfl⟩ : k' = k ∧ act = .exchanged old tokens := by
      cases act <;> cases hrenewal
      exact ⟨rfl, rfl⟩
    refine Or.inr ⟨k', old, ?_⟩
    rw [hsplit, hbefore]
    simp [hmem']

namespace Client

/-- **Every caller that finds the tokens about to expire makes an exchange of its own.** This holds
of all callers of a client and of every order of their moves. One caller without the others does
what `send` does. No two of them have the lock at once, so that what is exchanged is what is held.
When all are answered, there was one exchange for each time that tokens were found about to expire
or were turned down, and not one for all. Of callers that were not turned down, each has sent its
request with the tokens that it found, if they last, or with those of its own exchange. Where there
was one exchange only, and the tokens of the start were about to expire, all have sent theirs with
what that has brought. -/
theorem callers_renew_each [Fintype ι] (client : Client) (host : Host ω)
    (request : ι → String → Option Request) (start : Tokens) (w : ω) (schedule : List ι) :
    let gathered : Callers ι ω := .atStart ⟨start, w⟩
    let s := client.interleave host request schedule gathered
    (∀ i,
      let outcome := (client.send host (request i)).run ⟨start, w⟩
      let alone := client.interleave host request (List.replicate 13 i) gathered
      alone.phase i = .done outcome.1 ∧ alone.session = outcome.2) ∧
    (∀ i j, (s.phase i).holds → (s.phase j).holds → i = j) ∧
    s.session.tokens = latest start s.history ∧
    Throughout (Orderly start) s.history ∧
    ∀ answer : ι → Response, (∀ i, s.phase i = .done (.ok (answer i))) →
      tally Act.renews s.history =
        tally Act.findsExpiring s.history + tally Act.isDenied s.history ∧
      (tally Act.isDenied s.history = 0 →
        (∀ i,
          (∃ tokens now, tokens.needRefresh? now = some false ∧
            actsOf i s.history = [.found tokens now, .asked tokens.access (some (answer i))]) ∨
          ∃ tokens now old fresh, tokens.needRefresh? now = some true ∧
            actsOf i s.history = [.found tokens now, .exchanged old fresh, .replaced fresh,
              .asked fresh.access (some (answer i))]) ∧
        (tally Act.renews s.history = 1 →
          (∀ i now, (i, .found start now) ∈ s.history → start.needRefresh? now = some true) →
          ∃ fresh : Tokens, ∀ i, (i, .asked fresh.access (some (answer i))) ∈ s.history)) := by
  intro gathered s
  have hsound : s.Sound start := (Callers.sound_atStart start w).interleave schedule
  refine ⟨fun i ↦ interleave_alone 13 le_rfl rfl, fun i j ↦ hsound.locked.eq, hsound.tokens_eq,
    hsound.orderly, fun answer hdone ↦ ?_⟩
  have hstory (i : ι) : Story (.done (.ok (answer i))) (actsOf i s.history) :=
    hdone i ▸ hsound.story i
  refine ⟨?_, fun hnever ↦ ?_⟩
  · rw [tally_eq_sum, tally_eq_sum, tally_eq_sum, ← Finset.sum_add_distrib]
    exact Finset.sum_congr rfl fun i _ ↦ (hstory i).balance (by simp)
  · have hforms (i : ι) := (hstory i).of_answered (by
      rw [tally_eq_sum] at hnever
      exact Finset.sum_eq_zero_iff.mp hnever i (Finset.mem_univ i))
    refine ⟨hforms, fun hone hexpiring ↦ ?_⟩
    obtain ⟨⟨k, act⟩, hmem, hrenews⟩ : ∃ event ∈ s.history, event.2.renews :=
      List.countP_pos_iff.mp (Nat.lt_of_lt_of_eq Nat.one_pos hone.symm)
    obtain ⟨old, fresh, rfl⟩ : ∃ old fresh, act = .exchanged old fresh := by
      cases act <;> first | exact ⟨_, _, rfl⟩ | cases hrenews
    have hsame {i : ι} {old' fresh' : Tokens} (h : (i, .exchanged old' fresh') ∈ s.history) :
        fresh' = fresh := by
      cases eq_of_tally_eq_one hone h hmem rfl rfl
      rfl
    refine ⟨fresh, fun i ↦ ?_⟩
    rcases hforms i with ⟨tokens, now, lasts, hacts⟩ | ⟨tokens, now, old', fresh', -, hacts⟩
    · have hfound : (i, .found tokens now) ∈ s.history :=
        mem_actsOf.mp (by rw [hacts]; exact List.mem_cons_self)
      -- the tokens of the start do not last, so these have come of an exchange, and there is one
      rcases hsound.of_found hfound with rfl | ⟨k', old', hrenewal⟩
      · rw [hexpiring i now hfound] at lasts
        cases lasts
      · obtain rfl := hsame hrenewal
        exact mem_actsOf.mp (by simp [hacts])
    · have hrenewal : (i, .exchanged old' fresh') ∈ s.history := mem_actsOf.mp (by simp [hacts])
      obtain rfl := hsame hrenewal
      exact mem_actsOf.mp (by simp [hacts])

/-- Two callers find the tokens about to expire before either has come to the lock. Both exchange
them, with success, for an hour, nobody is turned down, and each sends its request with the tokens
of its own exchange. -/
theorem callers_renew_twice :
    let client : Client :=
      ⟨"me", "client", "secret", "http://api.test", "http://oauth.test/token"⟩
    let grant (access : String) : Response :=
      ⟨200, Http.bytes s!"\x7b\"access_token\":\"{access}\",\"expires_in\":3600\x7d".toList⟩
    let message (id : String) : Response := ⟨200, Http.bytes s!"\x7b\"id\":\"{id}\"\x7d".toList⟩
    let now : Instant := ⟨1718020800, 0⟩
    let script : Script :=
      { clock := now, answers := [grant "a", message "m1", grant "b", message "m2"] }
    let request (i : Fin 2) : String → Option Request :=
      client.minimalRequest? (if i = 0 then "m1" else "m2")
    let start : Tokens := ⟨"access", "refresh", ⟨1718020900, 0⟩⟩
    let granted (access : String) : Tokens := ⟨access, "refresh", ⟨1718024400, 0⟩⟩
    let schedule : List (Fin 2) := [0, 1] ++ List.replicate 6 0 ++ List.replicate 6 1
    let s := client.interleave Script.network.host request schedule
      (.atStart ⟨start, ⟨{}, script⟩⟩)
    start.needRefresh? now = some true ∧
      (granted "a").needRefresh? now = some false ∧ (granted "b").needRefresh? now = some false ∧
      s.phase 0 = .done (.ok (message "m1")) ∧ s.phase 1 = .done (.ok (message "m2")) ∧
      s.history =
        [(0, .found start now), (1, .found start now),
          (0, .exchanged start (granted "a")), (0, .replaced (granted "a")),
          (0, .asked "a" (some (message "m1"))),
          (1, .exchanged (granted "a") (granted "b")), (1, .replaced (granted "b")),
          (1, .asked "b" (some (message "m2")))] ∧
      tally Act.renews s.history = 2 ∧ tally Act.isDenied s.history = 0 := by
  decide +kernel

end Client

end MailRules.Mailbox

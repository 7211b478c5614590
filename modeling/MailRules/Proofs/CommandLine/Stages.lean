import Mathlib
import MailRules.CommandLine.Run
import MailRules.Proofs.Sorting.Isolation
import MailRules.Proofs.Sorting.Mistake

/-!
# The stages of a command

A command goes through its stages in a fixed order, and what it has done when one of them fails is
decided by that order. To read settings and rules changes nothing at all. To open the store changes
the disk only. Nothing is asked of the network, not even the time, before the credentials are there.
So a run that does not get ready (`Ready`) leaves the network as it was, whatever network that is;
one that writes down what is sent has nothing more to show than before.

After that there is one way left to fail, since records that cannot be planned do not end a run: a
call of the label service fails, or the records cannot be read. Every call is written down with its
answer (`LabelService.watched`), and carrying out errands fails exactly if one of these calls has
(`LabelService.Tells`). What is left to see in the end is whether all records were planned
(`fails_before_acting`).
-/

namespace MailRules

/-! ## Sorting -/

namespace RuleSet

variable {σ ε : Type} (rules : RuleSet) (moment : Moment)

/-- A run fails exactly if a call of the label service fails in it. -/
theorem tells_sort (service : LabelService σ ε) (records : List Record) :
    LabelService.Tells (rules.sort service.watched moment records) := by
  rw [sort_eq_carryOutEach]
  exact (service.tells_carryOutEach _).map _

theorem isClean_report_iff {records : List Record} {tally : Tally} :
    (rules.report moment records tally).isClean = true ↔
      ∀ r ∈ records, ∃ plan, rules.plan r moment = .ok plan := by
  rw [Report.isClean, List.isEmpty_iff, report, List.eq_nil_iff_forall_not_mem]
  simp only [mem_among_decisions_iff, not_exists, not_and]
  constructor
  · intro h r hr
    cases hplan : rules.plan r moment with
    | ok plan => exact ⟨plan, rfl⟩
    | error failure => exact absurd hplan (h failure r hr)
  · intro h failure r hr hfailure
    obtain ⟨plan, hplan⟩ := h r hr
    cases hplan.symm.trans hfailure

theorem isClean_report_eq_false {records : List Record} {tally : Tally} {r : Record}
    {failure : Failure} (hr : r ∈ records) (h : rules.plan r moment = .error failure) :
    (rules.report moment records tally).isClean = false := by
  rw [← Bool.not_eq_true, isClean_report_iff]
  intro hplanned
  obtain ⟨plan, hplan⟩ := hplanned r hr
  cases hplan.symm.trans h

end RuleSet

namespace CommandLine

open Mailbox (World Network Session Client Credentials MessageError)
open LabelService (Exchange)

variable {ν α : Type} {s : Settings} {w w' : World ν} {store : Store} {credentials : Credentials}

/-! ## Stages -/

/-- The store is opened and the credentials are read, and this is what that leaves. -/
structure Ready (s : Settings) (w : World ν) (store : Store) (credentials : Credentials)
    (w' : World ν) : Prop where
  opened : (openStore s).run w = (.ok store, w')
  loaded : Credentials.load w'.disk s.paths.credentials = .ok credentials

theorem network_openStore (s : Settings) (w : World ν) :
    ((openStore s).run w).2.network = w.network := rfl

theorem run_loadCredentials (s : Settings) (w : World ν) :
    (loadCredentials s).run w =
      ((Credentials.load w.disk s.paths.credentials).mapError (.credentials s.paths.credentials),
        w) := rfl

theorem run_loadRules (s : Settings) (w : World ν) :
    (loadRules s).run w = ((RuleSet.loadFile w.disk s.paths.rules).mapError .rules, w) := rfl

theorem run_loadRules_of_ok {rules : RuleSet}
    (h : RuleSet.loadFile w.disk s.paths.rules = .ok rules) :
    (loadRules s).run w = (.ok rules, w) := by
  rw [run_loadRules, h]
  rfl

theorem Ready.run_bind (h : Ready s w store credentials w')
    (next : Store → Credentials → Step (World ν) Failure α) :
    (do
      let store ← openStore s
      let credentials ← loadCredentials s
      next store credentials : Step (World ν) Failure α).run w =
      (next store credentials).run w' := by
  have hloaded : (loadCredentials s).run w' = (.ok credentials, w') := by
    rw [run_loadCredentials, h.loaded]
    rfl
  rw [Step.run_bind_of_ok h.opened, Step.run_bind_of_ok hloaded]

/-- What cannot get ready ends before it has asked the network for anything. -/
theorem run_bind_of_not_ready (h : ∀ store credentials w', ¬Ready s w store credentials w')
    (next : Store → Credentials → Step (World ν) Failure α) :
    ∃ failure w', (do
      let store ← openStore s
      let credentials ← loadCredentials s
      next store credentials : Step (World ν) Failure α).run w = (.error failure, w') ∧
      w'.network = w.network := by
  have hnetwork := network_openStore s w
  rcases hopened : (openStore s).run w with ⟨failure | store, w'⟩
  · rw [hopened] at hnetwork
    exact ⟨failure, w', Step.run_bind_of_error hopened, hnetwork⟩
  · rw [hopened] at hnetwork
    rw [Step.run_bind_of_ok hopened]
    cases hloaded : Credentials.load w'.disk s.paths.credentials with
    | ok credentials => exact absurd ⟨hopened, hloaded⟩ (h store credentials w')
    | error e =>
      have hrun : (loadCredentials s).run w' =
          (.error (.credentials s.paths.credentials e), w') := by
        rw [run_loadCredentials, hloaded]
        rfl
      exact ⟨_, w', Step.run_bind_of_error hrun, hnetwork⟩

/-! ## Sorting the stored records -/

section Sorting

variable (network : Network ν) (zone : Calendar.Zone) (s : Settings) (rules : RuleSet)
  (store : Store) (credentials : Credentials) (w : World ν)

/-- The moment that the records are sorted at. -/
def sortingMoment : Moment := ⟨(network.now.run w.network).1, zone⟩

/-- Sorts records that were read and left this disk, and writes down what the label service is
asked. -/
def watchedSorting (records : List Record) (d : Disk) :
    Except MessageError Report × Session (World ν) × List (Exchange MessageError) :=
  let host := network.hostWithFile s.paths.credentials credentials
  let service := (clientOf s credentials).labelService host
  (rules.sort service.watched (sortingMoment network zone w) records).run
    (⟨credentials.tokens, ⟨d, (network.now.run w.network).2⟩⟩, [])

/-- What the command does once it is ready. -/
def sorting : Step (World ν) Failure Report :=
  let client := clientOf s credentials
  let host := network.hostWithFile s.paths.credentials credentials
  connected credentials do
    let now ← Session.outside (Step.lift host.now)
    ExceptT.adapt .sorting (client.sortStored host store rules ⟨now, zone⟩)

theorem process_eq_sorting :
    process network zone s =
      (do
        let rules ← loadRules s
        let store ← openStore s
        let credentials ← loadCredentials s
        sorting network zone s rules store credentials) := rfl

theorem run_sorting :
    (sorting network zone s rules store credentials).run w =
      match store.records.run w.disk with
      | (.error e, d) => (.error (.sorting (.store e)), ⟨d, (network.now.run w.network).2⟩)
      | (.ok records, d) =>
        let sorted := watchedSorting network zone s rules credentials w records d
        (sorted.1.mapError fun e ↦ .sorting (.labels e), sorted.2.1.world) := by
  let host := network.hostWithFile s.paths.credentials credentials
  let stored := (clientOf s credentials).sortStored host store rules (sortingMoment network zone w)
  let start : Session (World ν) := ⟨credentials.tokens, ⟨w.disk, (network.now.run w.network).2⟩⟩
  have hrun : (sorting network zone s rules store credentials).run w =
      ((stored.run start).1.mapError .sorting, (stored.run start).2.world) := rfl
  have hread : (Session.outside (World.onDisk (ExceptT.adapt .store store.records)) :
      Step (Session (World ν)) Mailbox.RunError _).run start =
        ((store.records.run w.disk).1.mapError .store,
          ⟨credentials.tokens, ⟨(store.records.run w.disk).2, start.world.network⟩⟩) := rfl
  rw [hrun]
  rcases hrecords : store.records.run w.disk with ⟨e | records, d⟩
  · rw [hrecords] at hread
    have hstored : stored.run start =
        (.error (.store e), ⟨credentials.tokens, ⟨d, start.world.network⟩⟩) :=
      Step.run_bind_of_error hread
    rw [hstored]
    rfl
  · rw [hrecords] at hread
    have hstored : stored.run start = _ := Step.run_bind_of_ok hread
    rw [hstored, Step.run_adapt, RuleSet.run_sort_watched]
    dsimp only
    rw [watchedSorting]
    cases (Step.run _ _).1 <;> rfl

variable (records : List Record) (d : Disk)

/-- Sorting ends with an error after a call that failed. Or no call has failed, and there is a
report. -/
theorem watchedSorting_cases :
    let sorted := watchedSorting network zone s rules credentials w records d
    (∃ e, sorted.1 = .error e ∧ ∃ exchange ∈ sorted.2.2, exchange.Failed) ∨
      ∃ tally, sorted.1 = .ok (rules.report (sortingMoment network zone w) records tally) ∧
        ¬∃ exchange ∈ sorted.2.2, exchange.Failed := by
  intro sorted
  let host := network.hostWithFile s.paths.credentials credentials
  let service := (clientOf s credentials).labelService host
  let start : Session (World ν) := ⟨credentials.tokens, ⟨d, (network.now.run w.network).2⟩⟩
  have hsorted : sorted = _ := rules.run_sort service.watched (sortingMoment network zone w) records
    (start, [])
  have hfails : (∃ e, sorted.1 = .error e) ↔ ∃ exchange ∈ sorted.2.2, exchange.Failed := by
    obtain ⟨more, hmore, hfails⟩ := rules.tells_sort (sortingMoment network zone w) service records
      (start, [])
    rwa [← List.nil_append more, ← hmore] at hfails
  cases hcarried : ((service.watched.carryOutEach
      (rules.errands (sortingMoment network zone w) records)).run (start, [])).1 with
  | error e =>
    have herror : sorted.1 = .error e := by rw [hsorted, hcarried]; rfl
    exact Or.inl ⟨e, herror, hfails.mp ⟨e, herror⟩⟩
  | ok tally =>
    have hok : sorted.1 = .ok (rules.report (sortingMoment network zone w) records tally) := by
      rw [hsorted, hcarried]
      rfl
    refine Or.inr ⟨tally, hok, fun hfailed ↦ ?_⟩
    obtain ⟨e, himpossible⟩ := hfails.mpr hfailed
    cases hok.symm.trans himpossible

/-- What is said of a sorting in the end. -/
def replied (sorted : Except MessageError Report) : Except Failure Reply :=
  (sorted.mapError fun e ↦ .sorting (.labels e)).map fun report ↦ ⟨report.isClean, []⟩

theorem replied_watchedSorting :
    let sorted := watchedSorting network zone s rules credentials w records d
    ((∃ failure, replied sorted.1 = .error failure) ↔ ∃ exchange ∈ sorted.2.2, exchange.Failed) ∧
    ((∀ exchange ∈ sorted.2.2, ¬exchange.Failed) →
      ((∀ r ∈ records, ∃ plan, rules.plan r (sortingMoment network zone w) = .ok plan) →
        replied sorted.1 = .ok ⟨true, []⟩) ∧
      ((∃ r ∈ records, ∃ failure,
          rules.plan r (sortingMoment network zone w) = .error failure) →
        replied sorted.1 = .ok ⟨false, []⟩)) := by
  intro sorted
  rcases watchedSorting_cases network zone s rules credentials w records d with
    ⟨e, hsorted, hfailed⟩ | ⟨tally, hsorted, hanswered⟩
  · rw [hsorted]
    refine ⟨iff_of_true ⟨_, rfl⟩ hfailed, fun hanswered ↦ ?_⟩
    obtain ⟨exchange, hmem, himpossible⟩ := hfailed
    exact absurd himpossible (hanswered exchange hmem)
  · rw [hsorted]
    refine ⟨iff_of_false (fun ⟨_, himpossible⟩ ↦ by cases himpossible) hanswered,
      fun _ ↦ ⟨?_, ?_⟩⟩
    · intro hplanned
      have hclean : (rules.report (sortingMoment network zone w) records tally).isClean = true :=
        (rules.isClean_report_iff _).mpr hplanned
      simp only [replied, Except.mapError, Except.map, hclean]
    · rintro ⟨r, hr, failure, hfailure⟩
      have hunclean : (rules.report (sortingMoment network zone w) records tally).isClean = false :=
        rules.isClean_report_eq_false _ hr hfailure
      simp only [replied, Except.mapError, Except.map, hunclean]

end Sorting

/-! ## Commands -/

section Commands

variable (network : Network ν) (zone : Calendar.Zone) {env : Environment} {path : String}

theorem run_loadSettings (hs : Settings.load w.disk env path = .ok s) :
    Step.run (ExceptT.adapt (Failure.settings path) (reading fun d ↦ Settings.load d env path)) w =
      (.ok s, w) := by
  rw [Step.run_adapt, reading, Step.run_ofRun, hs]
  rfl

theorem run_perform_process (hs : Settings.load w.disk env path = .ok s) :
    (perform network zone env ⟨path, .process⟩).run w =
      (((process network zone s).run w).1.map fun report ↦ ⟨report.isClean, []⟩,
        ((process network zone s).run w).2) := by
  rw [perform, Step.run_bind_of_ok (run_loadSettings hs)]
  dsimp only
  rw [bind_pure_comp, Step.run_map]

theorem run_perform_fetch (hs : Settings.load w.disk env path = .ok s) (limit : Option ℕ)
    (label : Option String) :
    (perform network zone env ⟨path, .fetch limit label⟩).run w =
      (((fetch network s limit label).run w).1.map fun _ ↦ ⟨true, []⟩,
        ((fetch network s limit label).run w).2) := by
  rw [perform, Step.run_bind_of_ok (run_loadSettings hs)]
  dsimp only
  rw [bind_pure_comp, Step.run_map]

/-- Without rules the world is left as it was. -/
theorem run_perform_process_of_rejected (hs : Settings.load w.disk env path = .ok s)
    {e : RuleSet.FileError} (hrules : RuleSet.loadFile w.disk s.paths.rules = .error e) :
    (perform network zone env ⟨path, .process⟩).run w = (.error (.rules e), w) := by
  have hload : (loadRules s).run w = (.error (.rules e), w) := by
    rw [run_loadRules, hrules]
    rfl
  rw [run_perform_process network zone hs, process_eq_sorting, Step.run_bind_of_error hload]
  rfl

theorem perform_process_of_not_ready (hs : Settings.load w.disk env path = .ok s)
    (hready : ∀ store credentials w', ¬Ready s w store credentials w') :
    let processed := (perform network zone env ⟨path, .process⟩).run w
    (∃ failure, processed.1 = .error failure) ∧ processed.2.network = w.network := by
  intro processed
  cases hrules : RuleSet.loadFile w.disk s.paths.rules with
  | error e =>
    have hprocessed : processed = _ := run_perform_process_of_rejected network zone hs hrules
    rw [hprocessed]
    exact ⟨⟨_, rfl⟩, rfl⟩
  | ok rules =>
    have hprocessed : processed = _ := run_perform_process network zone hs
    obtain ⟨failure, w', hrun, hnetwork⟩ :=
      run_bind_of_not_ready hready (sorting network zone s rules)
    rw [hprocessed, process_eq_sorting, Step.run_bind_of_ok (run_loadRules_of_ok hrules), hrun]
    exact ⟨⟨failure, rfl⟩, hnetwork⟩

theorem perform_fetch_of_not_ready (hs : Settings.load w.disk env path = .ok s)
    (hready : ∀ store credentials w', ¬Ready s w store credentials w') (limit : Option ℕ)
    (label : Option String) :
    let fetched := (perform network zone env ⟨path, .fetch limit label⟩).run w
    (∃ failure, fetched.1 = .error failure) ∧ fetched.2.network = w.network := by
  intro fetched
  have hfetch : ∃ failure w', (fetch network s limit label).run w = (.error failure, w') ∧
      w'.network = w.network := run_bind_of_not_ready hready _
  obtain ⟨failure, w', hrun, hnetwork⟩ := hfetch
  have hfetched : fetched = _ := run_perform_fetch network zone hs limit label
  rw [hfetched, hrun]
  exact ⟨⟨failure, rfl⟩, hnetwork⟩

/-- What there is at hand is used to sort the records, if they can be read. -/
theorem run_perform_process_of_ready (hs : Settings.load w.disk env path = .ok s)
    {rules : RuleSet} (hrules : RuleSet.loadFile w.disk s.paths.rules = .ok rules)
    (hready : Ready s w store credentials w') :
    (perform network zone env ⟨path, .process⟩).run w =
      match store.records.run w'.disk with
      | (.error e, d) => (.error (.sorting (.store e)), ⟨d, (network.now.run w'.network).2⟩)
      | (.ok records, d) =>
        let sorted := watchedSorting network zone s rules credentials w' records d
        (replied sorted.1, sorted.2.1.world) := by
  rw [run_perform_process network zone hs, process_eq_sorting,
    Step.run_bind_of_ok (run_loadRules_of_ok hrules), hready.run_bind, run_sorting]
  rcases store.records.run w'.disk with ⟨e | records, d⟩ <;> rfl

/-- **A command fails before it acts.** Without rules the world is left as it was. A run that cannot
open its store or read its credentials asks nothing of the network. And where everything is at hand
the command fails exactly if the records cannot be read or a call of the label service fails; else
it succeeds if every record was planned, and it ends without success if one was not. -/
theorem fails_before_acting (hs : Settings.load w.disk env path = .ok s) :
    let processed := (perform network zone env ⟨path, .process⟩).run w
    (∀ e, RuleSet.loadFile w.disk s.paths.rules = .error e → processed = (.error (.rules e), w)) ∧
    ((∀ store credentials w', ¬Ready s w store credentials w') →
      ((∃ failure, processed.1 = .error failure) ∧ processed.2.network = w.network) ∧
      ∀ limit label, let fetched := (perform network zone env ⟨path, .fetch limit label⟩).run w
        (∃ failure, fetched.1 = .error failure) ∧ fetched.2.network = w.network) ∧
    ∀ rules store credentials w', RuleSet.loadFile w.disk s.paths.rules = .ok rules →
      Ready s w store credentials w' →
        (∀ e, (store.records.run w'.disk).1 = .error e →
          processed.1 = .error (.sorting (.store e))) ∧
        ∀ records d, store.records.run w'.disk = (.ok records, d) →
          let sorted := watchedSorting network zone s rules credentials w' records d
          processed.2 = sorted.2.1.world ∧
          ((∃ failure, processed.1 = .error failure) ↔
            ∃ exchange ∈ sorted.2.2, exchange.Failed) ∧
          ((∀ exchange ∈ sorted.2.2, ¬exchange.Failed) →
            ((∀ r ∈ records, ∃ plan,
                rules.plan r (sortingMoment network zone w') = .ok plan) →
              processed.1 = .ok ⟨true, []⟩) ∧
            ((∃ r ∈ records, ∃ failure,
                rules.plan r (sortingMoment network zone w') = .error failure) →
              processed.1 = .ok ⟨false, []⟩)) := by
  intro processed
  refine ⟨fun e hrules ↦ run_perform_process_of_rejected network zone hs hrules,
    fun hready ↦ ⟨perform_process_of_not_ready network zone hs hready,
      perform_fetch_of_not_ready network zone hs hready⟩, ?_⟩
  intro rules store credentials w' hrules hready
  have hprocessed : processed = _ := run_perform_process_of_ready network zone hs hrules hready
  refine ⟨?_, ?_⟩
  · intro e hrecords
    rcases hrun : store.records.run w'.disk with ⟨result, d⟩
    rw [hrun] at hprocessed hrecords
    obtain rfl : result = .error e := hrecords
    rw [hprocessed]
  · intro records d hrecords sorted
    rw [hrecords] at hprocessed
    rw [hprocessed]
    exact ⟨rfl, replied_watchedSorting network zone s rules credentials w' records d⟩

/-- A record meets an action that nobody knows. Where there is nothing but settings, no store is
made for want of rules, and nothing is fetched for want of credentials. -/
theorem fails_before_acting_of_unknown_action :
    let settings := "[app]\nservice_name = \"mail\"\nenv = \"test\"\n" ++
      "[paths]\ndatabase = \"db\"\nrules = \"r\"\ncredentials = \"c\"\n"
    let rules := "[\x7b\"predicate\":\"All\",\"conditions\":[\x7b\"field\":\"subject\"," ++
      "\"predicate\":\"contains\",\"value\":\"Invoice\"\x7d],\"actions\":[\"archive\"]\x7d]"
    let credentials := "\x7b\"client_id\":\"i\",\"client_secret\":\"s\",\"oauth\":" ++
      "\x7b\"access_token\":\"a\",\"refresh_token\":\"r\"," ++
      "\"expires_at\":\"2999-01-01T00:00:00Z\"\x7d\x7d"
    let file (name text : String) : Location × Entry :=
      ([name.toList], .file (Text.glyphs text.toList))
    let r : Record := ⟨"1", "", "", "Invoice 7", ""⟩
    let world (files : List (Location × Entry)) : World Mailbox.Script :=
      ⟨{ entries := file "config.toml" settings :: files }, ⟨⟨1718020800, 0⟩, [], []⟩⟩
    let step (command : Command) : Step (World Mailbox.Script) Failure Reply :=
      perform Mailbox.Script.network .utc (fun _ ↦ none) ⟨"config.toml", command⟩
    let bare := world []
    let complete := world [file "r" rules, file "c" credentials,
      (["db".toList], .database ⟨["001_emails"], some ⟨[r]⟩⟩)]
    (∃ e, (step .process).run bare = (.error (.rules e), bare)) ∧
      ((step (.fetch none none)).run bare).2.network = bare.network ∧
      ((step .process).run complete).1 = .ok ⟨false, []⟩ := by
  intro settings rules credentials file r world step bare complete
  let s : Settings := ⟨⟨"mail", "test"⟩, ⟨"db", "r", "c"⟩, {}⟩
  have hbare : Settings.load bare.disk (fun _ ↦ none) "config.toml" = .ok s := by decide +kernel
  have hcomplete : Settings.load complete.disk (fun _ ↦ none) "config.toml" = .ok s := by
    decide +kernel
  obtain ⟨hrejected, hunready, -⟩ := fails_before_acting Mailbox.Script.network .utc hbare
  obtain ⟨-, -, hready⟩ := fails_before_acting Mailbox.Script.network .utc hcomplete
  refine ⟨?_, ?_, ?_⟩
  · have hrules : RuleSet.loadFile bare.disk "r" = .error (.unreadable "r" .notFound) := by
      decide +kernel
    exact ⟨_, hrejected _ hrules⟩
  · refine ((hunready ?_).2 none none).2
    rintro store c w' ⟨hopened, hloaded⟩
    have hmissing : Credentials.load ((openStore s).run bare).2.disk "c" =
        .error (.unreadable "c" .notFound) := by decide +kernel
    have hdisk : w'.disk = ((openStore s).run bare).2.disk := by rw [hopened]
    rw [hdisk] at hloaded
    cases hmissing.symm.trans hloaded
  · have hrules : RuleSet.loadFile complete.disk "r" =
        .ok [⟨.all, [⟨.subject, "contains", "Invoice"⟩], ["archive"]⟩] := by decide +kernel
    have hopened : ((openStore s).run complete).1 = .ok (.file "db") := by decide +kernel
    have hloaded : Credentials.load ((openStore s).run complete).2.disk "c" =
        .ok ⟨"i", "s", ⟨"a", "r", ⟨32472144000, 0⟩⟩⟩ := by decide +kernel
    obtain ⟨-, hsorted⟩ := hready _ _ _ _ hrules ⟨Prod.ext hopened rfl, hloaded⟩
    have hrecords : ((Store.file "db").records.run ((openStore s).run complete).2.disk).1 =
        .ok [r] := by decide +kernel
    obtain ⟨-, -, hended⟩ := hsorted _ _ (Prod.ext hrecords rfl)
    have hplan : RuleSet.plan [⟨.all, [⟨.subject, "contains", "Invoice"⟩], ["archive"]⟩] r
        (sortingMoment Mailbox.Script.network .utc ((openStore s).run complete).2) =
          .error ⟨"1", 0, .action "archive"⟩ := by decide +kernel
    refine (hended ?_).2 ⟨r, List.mem_singleton_self _, _, hplan⟩
    -- nothing is to be done about the record, so that nothing is asked
    rw [watchedSorting, RuleSet.run_sort, RuleSet.errands, List.flatMap_singleton, hplan]
    exact List.forall_mem_nil _

end Commands

end CommandLine

end MailRules

import Mathlib
import MailRules.Mailbox.World
import MailRules.Proofs.Mailbox.CredentialsFile
import MailRules.Proofs.Mailbox.History

/-!
# Tokens outlive the client

Tokens are kept before they are held. So whatever happens to a client, nothing that it holds or
sends is lost with it: it was kept, if it is not what the client began with
(`Client.tokens_persist`). Two accounts of a run say this.

* The account of the events (`Client.Accounted`) is about any host at all: the clock may go
  backwards, any answer may come, and tokens may be refused by whoever keeps them.
* The account of the file (`Client.invariant_inFile`) is about tokens that are kept in a file. Once
  tokens have been written, the file is that of the tokens held. It needs a clock that shows
  instants, because then a grant cannot expire at anything else.

The accounts do not depend on each other. A file that could not be written is as it was, which is
why the second holds between two events that keep tokens.
-/

namespace MailRules.Mailbox

open Http (Request)

namespace Client

variable {client : Client}

/-! ## Failing -/

/-- **A refresh that fails leaves the tokens.** -/
theorem tokens_of_refresh_error {ω : Type} {host : Host ω} {s : Session ω} {error : ClientError}
    (h : ((client.refresh host).run s).1 = .error error) :
    ((client.refresh host).run s).2.tokens = s.tokens := by
  revert h
  rw [run_refresh]
  rcases (client.exchange host s.tokens).run s.world with ⟨error | fresh, w⟩
  · exact fun _ ↦ rfl
  · dsimp only
    rcases (host.save fresh).run w with ⟨reason | ⟨⟩, w'⟩
    · exact fun _ ↦ rfl
    · exact fun h ↦ by cases h

/-! ## The file -/

theorem valid_of_renewed {tokens fresh : Tokens} {grant : Grant} {now : Calendar.Instant}
    (hnow : now.Valid) (h : renewed tokens grant now = .ok fresh) : fresh.expires.Valid := by
  rw [renewed] at h
  split at h
  · cases h
  · rename_i expires hexpires
    obtain rfl := Except.ok.inj h
    exact hnow.addSeconds? hexpires

variable {ν : Type}

/-- Once tokens have been kept, the file holds those of the client. -/
def InFile (path : String) (credentials : Credentials) (tokens : Tokens)
    (w : World ν × List Event) : Prop :=
  (∃ saved, .save saved (.ok ()) ∈ w.2) →
    Credentials.load w.1.disk path = .ok { credentials with tokens }

/-- An event in which no tokens are kept, and the disk is as it was. -/
theorem InFile.concat {path : String} {credentials : Credentials} {tokens : Tokens} {w w' : World ν}
    {log : List Event} (h : InFile path credentials tokens (w, log)) (hdisk : w'.disk = w.disk)
    {event : Event} (hevent : ∀ saved, event ≠ .save saved (.ok ())) :
    InFile path credentials tokens (w', log ++ [event]) := by
  rintro ⟨saved, hsaved⟩
  rcases List.mem_append.mp hsaved with hbefore | hlast
  · rw [hdisk]
    exact h ⟨saved, hbefore⟩
  · exact absurd (List.mem_singleton.mp hlast).symm (hevent saved)

/-- Tokens are kept with the credentials they belong to. -/
theorem run_save_hostWithFile (network : Network ν) (path : String) (credentials : Credentials)
    (tokens : Tokens) (w : World ν) :
    ((network.hostWithFile path credentials).save tokens).run w =
      (((Credentials.save { credentials with tokens } path).run w.disk).1.mapError
          WriteError.message,
        { w with disk := ((Credentials.save { credentials with tokens } path).run w.disk).2 }) := by
  refine Prod.ext ?_ rfl
  rw [Network.hostWithFile, StateT.run]
  dsimp only
  cases ((Credentials.save { credentials with tokens } path).run w.disk).1 <;> rfl

/-- **Every call keeps the file.** -/
theorem invariant_inFile (client : Client) {network : Network ν}
    (hclock : ∀ n, (network.now.run n).1.Valid) (path : String) (credentials : Credentials) :
    client.Invariant (network.hostWithFile path credentials).watched
      (InFile path credentials) where
  clock h := h.concat rfl (by simp)
  send h _ := h.concat rfl (by simp)
  saved {tokens fresh w w'} _ hrenews hkept := by
    obtain ⟨grant, u, -, hrenewed⟩ := hrenews
    have hvalid : fresh.expires.Valid := valid_of_renewed (hclock u.1.network) hrenewed
    rw [Host.watched, run_watch, run_save_hostWithFile] at hkept
    rcases hsave : (Credentials.save { credentials with tokens := fresh } path).run w.1.disk
      with ⟨e | ⟨⟩, d⟩
    · rw [hsave] at hkept
      cases (Prod.mk.inj hkept).1
    · rw [hsave] at hkept
      obtain rfl := (Prod.mk.inj hkept).2
      exact fun _ ↦ Credentials.load_of_save hvalid hsave
  unsaved {tokens fresh w w' reason} h _ hkept := by
    rw [Host.watched, run_watch, run_save_hostWithFile] at hkept
    rcases hsave : (Credentials.save { credentials with tokens := fresh } path).run w.1.disk
      with ⟨e | ⟨⟩, d⟩
    · rw [hsave] at hkept
      obtain rfl := (Prod.mk.inj hkept).2
      exact h.concat (Credentials.eq_of_save_error hsave) (by simp [Except.mapError])
    · rw [hsave] at hkept
      cases (Prod.mk.inj hkept).1

/-! ## Both -/

/-- **What a client holds was kept, and what was kept is what it holds.** After any operations with
any host the tokens are those that the events say, and each request is one of a client that held
what had been kept by then; to be watched makes no difference. A refresh that fails leaves the
tokens. With a file, and a clock that shows instants, the file is loaded as the tokens held, once
any have been written. -/
theorem tokens_persist (client : Client) (operations : List Operation) :
    (∀ {ω : Type} (host : Host ω) (start : Tokens) (w : ω),
      let after := client.perform host.watched operations ⟨start, (w, [])⟩
      after.unwatched = client.perform host operations ⟨start, w⟩ ∧
        after.tokens = held start after.world.2 ∧
        ∀ before request answer rest, after.world.2 = before ++ .call request answer :: rest →
          client.exchangeRequest? (held start before).refresh = some request ∨
            request.Bears (held start before).access) ∧
    (∀ {ω : Type} (host : Host ω) (s : Session ω) (error : ClientError),
      ((client.refresh host).run s).1 = .error error →
        ((client.refresh host).run s).2.tokens = s.tokens) ∧
    (∀ {ν : Type} (network : Network ν), (∀ n, (network.now.run n).1.Valid) →
      ∀ (path : String) (credentials : Credentials) (d : Disk) (n : ν),
        let after := client.perform (network.hostWithFile path credentials).watched operations
          ⟨credentials.tokens, (⟨d, n⟩, [])⟩
        (∃ saved, .save saved (.ok ()) ∈ after.world.2) →
          Credentials.load after.world.1.disk path =
            .ok { credentials with tokens := after.tokens }) := by
  refine ⟨fun host start w ↦ ?_, fun host s error h ↦ tokens_of_refresh_error h,
    fun network hclock path credentials d n ↦ ?_⟩
  · have hafter := (invariant_accounted client host start).perform operations ⟨start, (w, [])⟩
      (accounted_nil w)
    exact ⟨perform_watched _ operations, hafter.tokens_eq, fun _ _ _ _ ↦ hafter.sends⟩
  · exact (invariant_inFile client hclock path credentials).perform operations _
      (fun ⟨_, h⟩ ↦ absurd h List.not_mem_nil)

/-- A token that is about to expire is exchanged before the call, and the new one is in the file.
One that lasts is sent as it is, and it is still there when an exchange has no answer. -/
theorem tokens_persist_around_call :
    let client : Client :=
      ⟨"me", "client", "secret", "http://api.test", "http://oauth.test/token"⟩
    let now : Calendar.Instant := ⟨1718020800, 0⟩
    let network : Network (List Http.Response) :=
      { now := fun answers ↦ (now, answers)
        send := fun _ answers ↦ (answers.head?, answers.tail) }
    let lasting : Tokens := ⟨"access", "refresh", ⟨1718024400, 0⟩⟩
    let request : Request :=
      ⟨.get, "http://api.test/me/messages/1?format=minimal", some "Bearer access", none, ""⟩
    let expiring : Credentials := ⟨"client", "secret", ⟨"access", "refresh", ⟨1718020900, 0⟩⟩⟩
    let grant := "\x7b\"access_token\":\"new\",\"expires_in\":3600\x7d".toList
    let after := client.perform (network.hostWithFile "tokens.json" expiring).watched
      [.minimal "1"] ⟨expiring.tokens, (⟨{}, [⟨200, Http.bytes grant⟩]⟩, [])⟩
    (client.exchangeRequest? "refresh" = some request ∨ request.Bears "access") ∧
      ((client.refresh network.host).run ⟨lasting, ⟨{}, []⟩⟩).2.tokens = lasting ∧
      after.tokens = ⟨"new", "refresh", ⟨1718024400, 0⟩⟩ ∧
      Credentials.load after.world.1.disk "tokens.json" =
        .ok { expiring with tokens := after.tokens } := by
  intro client now network lasting request expiring grant
  obtain ⟨hevents, hrefresh, hfile⟩ := tokens_persist client [.minimal "1"]
  have hloaded := hfile network (fun _ ↦ show now.Valid by decide) "tokens.json" expiring {}
    [⟨200, Http.bytes grant⟩]
  refine ⟨?_, ?_, by decide +kernel, hloaded ⟨⟨"new", "refresh", ⟨1718024400, 0⟩⟩, ?_⟩⟩
  · obtain ⟨-, -, hsent⟩ := hevents network.host lasting ⟨{}, []⟩
    exact hsent [.clock now] request none [] (by decide +kernel)
  · exact hrefresh network.host ⟨lasting, ⟨{}, []⟩⟩ (.exchange .notSent) (by decide +kernel)
  · decide +kernel

end Client

end MailRules.Mailbox

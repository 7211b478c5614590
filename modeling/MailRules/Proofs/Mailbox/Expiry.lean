import Mathlib
import MailRules.Proofs.Mailbox.CredentialsFile

/-!
# Expiries that are read are written and read again

The expiry of a token is read with some freedom and written in one form. Many texts are an expiry:
with blanks, with short numbers, with an offset, with more digits of fraction than count. Whatever
they are, the instant they stand for is one that the calendar has
(`Timestamp.valid_of_instant?`), and so the text that is written of it stands for the same instant
and is written of it again. Reading and writing settles after one turn
(`instantCodec_roundTrips`).

The same holds of the credentials around it: whatever file they were read from, the file that is
written of them is read as the same credentials.
-/

namespace MailRules.Mailbox

open Json
open Calendar (Instant Timestamp.instant? Timestamp.write)

/-! ## What is read exists -/

theorem yields_instantCodec : instantCodec.Yields Instant.Valid := by
  intro node t h
  obtain ⟨s, -, hdecode⟩ := bind_eq_ok_iff.mp h
  split at hdecode
  · rename_i u hinstant
    obtain rfl := pure_eq_ok_iff.mp hdecode
    exact Calendar.Timestamp.valid_of_instant? hinstant
  · cases hdecode

theorem Tokens.yields_codec : Tokens.codec.Yields fun tokens ↦ tokens.expires.Valid := by
  intro node tokens h
  have hrow := Row.Yields.cons "access_token" (.cons "refresh_token"
    (.cons "expires_at" .nil yields_instantCodec) (Codec.yields_true .text))
    (Codec.yields_true .text)
  obtain ⟨values, ⟨-, -, hexpires, -⟩, rfl⟩ := hrow.record _ _ node tokens h
  exact hexpires

theorem Credentials.yields_codec : Credentials.codec.Yields fun c ↦ c.tokens.expires.Valid := by
  intro node c h
  have hrow := Row.Yields.cons "client_id" (.cons "client_secret"
    (.cons "oauth" .nil Tokens.yields_codec) (Codec.yields_true .text))
    (Codec.yields_true .text)
  obtain ⟨values, ⟨-, -, htokens, -⟩, rfl⟩ := hrow.record _ _ node c h
  exact htokens

theorem Credentials.valid_of_readText {source : String} {c : Credentials}
    (h : codec.readText source = .ok c) : c.tokens.expires.Valid := by
  obtain ⟨d, hread, hend⟩ := bind_eq_ok_iff.mp h
  split at hend
  · cases hend
  · obtain rfl := pure_eq_ok_iff.mp hend
    exact yields_codec _ _ hread

/-! ## Reading and writing in turn -/

/-- **Instants are read back from what is written of them, and whatever is read is written so that
it is read as the same and written as the same again.** -/
theorem instantCodec_roundTrips :
    (∀ t : Instant, t.Valid → Timestamp.instant? (Timestamp.write t) = some t ∧
      instantCodec.RoundTrips t) ∧
    (∀ (s : List Char) (t : Instant), Timestamp.instant? s = some t →
      Timestamp.instant? (Timestamp.write t) = some t ∧
        (Timestamp.instant? (Timestamp.write t)).map Timestamp.write = some (Timestamp.write t)) ∧
    (∀ node t, instantCodec.read node = .ok t → instantCodec.RoundTrips t) ∧
    ∀ source c, Credentials.codec.readText source = .ok c → Credentials.codec.RoundTrips c := by
  have hwritten {t : Instant} (ht : t.Valid) : Timestamp.instant? (Timestamp.write t) = some t :=
    Calendar.Timestamp.instant?_write ht
  refine ⟨fun t ht ↦ ⟨hwritten ht, (restores_instantCodec ht).roundTrips⟩, fun s t h ↦ ?_,
    fun node t h ↦ (restores_instantCodec (yields_instantCodec node t h)).roundTrips,
    fun source c h ↦ (Credentials.restores_codec (Credentials.valid_of_readText h)).roundTrips⟩
  have hread := hwritten (Calendar.Timestamp.valid_of_instant? h)
  exact ⟨hread, by rw [hread]; rfl⟩

/-- A leap second that an offset of half an hour takes to the year before, written with short
numbers and more digits than count. -/
theorem instantCodec_roundTrips_leapSecond :
    let text := "2024-1-1 0 :29:60.5000000009 +00:30".toList
    let t : Instant := ⟨1704067199, 1500000000⟩
    let c : Credentials := ⟨"client", "secret", ⟨"access", "refresh", t⟩⟩
    t.Valid ∧ Timestamp.instant? text = some t ∧
      Timestamp.write t = "2023-12-31T23:59:60.500Z".toList ∧
      Timestamp.instant? (Timestamp.write t) = some t ∧
      (Timestamp.instant? (Timestamp.write t)).map Timestamp.write = some (Timestamp.write t) ∧
      instantCodec.RoundTrips t ∧ Credentials.codec.readText c.text = .ok c ∧
      Credentials.codec.RoundTrips c := by
  intro text t c
  obtain ⟨hvalid, htext, hnode, hcredentials⟩ := instantCodec_roundTrips
  have ht : t.Valid := by decide
  have hread : Timestamp.instant? text = some t := by decide +kernel
  have hloaded : Credentials.codec.readText c.text = .ok c :=
    (Credentials.restores_codec (c := c) ht).readText
  exact ⟨ht, hread, by decide +kernel, (hvalid t ht).1, (htext text t hread).2,
    hnode (.text (.good (String.ofList text))) t (by decide +kernel), hloaded,
    hcredentials c.text c hloaded⟩

end MailRules.Mailbox

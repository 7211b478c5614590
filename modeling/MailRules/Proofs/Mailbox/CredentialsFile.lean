import Mathlib
import MailRules.Mailbox.CredentialsFile
import MailRules.Proofs.Calendar.Timestamp
import MailRules.Proofs.Disk
import MailRules.Proofs.Json.Codec

/-!
# Credentials that are saved are loaded

The file holds all of the credentials, whatever characters are in their texts, and the expiry to the
nanosecond. So loading gives back what was saved last (`Credentials.load_of_save`). The one thing
that it takes is an expiry that the calendar has; a pair of numbers that is no instant has no
timestamp.
-/

namespace MailRules.Mailbox

open Json

/-! ## The codecs -/

theorem restores_instantCodec {t : Calendar.Instant} (h : t.Valid) : instantCodec.Restores t :=
  (Codec.restores_text _).via <| by
    rw [String.toList_ofList]
    exact Calendar.Timestamp.instant?_write h

theorem Tokens.restores_codec {tokens : Tokens} (h : tokens.expires.Valid) :
    Tokens.codec.Restores tokens := by
  exact Row.RestoresUnder.record (.cons (Field.restores_required (Codec.restores_text _))
    (by decide) <|
    .cons (Field.restores_required (Codec.restores_text _)) (by decide) <|
    .cons (Field.restores_required (restores_instantCodec h)) (by decide) .nil) rfl

namespace Credentials

variable {c : Credentials} {path : String} {d d' : Disk}

theorem restores_codec (h : c.tokens.expires.Valid) : Credentials.codec.Restores c := by
  exact Row.RestoresUnder.record (.cons (Field.restores_required (Codec.restores_text _))
    (by decide) <|
    .cons (Field.restores_required (Codec.restores_text _)) (by decide) <|
    .cons (Field.restores_required (Tokens.restores_codec h)) (by decide) .nil) rfl

/-! ## The file -/

theorem run_save (c : Credentials) (path : String) (d : Disk) :
    (c.save path).run d =
      match d.write path (Text.glyphs c.text.toList) with
      | .error fault => (.error ⟨path, fault⟩, d)
      | .ok d => (.ok (), d) := rfl

/-- A file that could not be written is as it was. -/
theorem eq_of_save_error {e : WriteError} (h : (c.save path).run d = (.error e, d')) : d' = d := by
  rw [run_save] at h
  split at h
  · exact (Prod.mk.inj h).2.symm
  · cases h

/-- **What was saved is loaded.** -/
theorem load_of_save (h : c.tokens.expires.Valid) (hsave : (c.save path).run d = (.ok (), d')) :
    Credentials.load d' path = .ok c := by
  rw [run_save] at hsave
  split at hsave
  · cases hsave
  · rename_i written hwrite
    obtain rfl := (Prod.mk.inj hsave).2
    rw [load, Disk.read_of_write hwrite, String.ofList_toList]
    dsimp only
    rw [text, (restores_codec h).readText]

end Credentials

end MailRules.Mailbox

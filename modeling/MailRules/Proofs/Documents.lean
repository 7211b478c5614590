import Mathlib
import MailRules.Mailbox.Message
import MailRules.Rule.File
import MailRules.Store.Basic
import MailRules.Proofs.Mailbox.CredentialsFile

/-!
# The documents of the program

Records and rules that people write, messages and listings of the service, requests to it, tokens
and credentials: each is written as a document, and each document is read back as what it was
written for (`documents_roundTrip`). That is a matter of the fields. A codec of a record restores
the record if the codecs of its fields restore them and their keys differ, and the three ways in
which a field can be left out each come back as what they stand for: an option that is absent is
written as a null, a list that may be missing is written all the same, and a list of labels is left
out when it is empty. The file of a store is one more document (`Database.ofImage?_image`).

Two kinds of value have no document of their own. A number above 64 bits is read as one that is
not whole, and a pair of numbers that is no instant has no timestamp.

Loading a rule set asks for more than reading it, so a rule set is loaded from its document if no
list in it is empty (`RuleSet.load_of_read`).
-/

namespace MailRules

open Json

/-! ## Fields with texts -/

theorem restores_required_text (key s : String) : (Json.Field.required key .text).Restores s :=
  Json.Field.restores_required (Codec.restores_text s)

/-- A text that may be missing. -/
theorem restores_optional_text (key : String) (o : Option String) :
    (Json.Field.optional key .text).Restores o :=
  Json.Field.restores_optional fun s _ ↦ ⟨Codec.restores_text s, by simp [Codec.text]⟩

/-! ## Records and rules -/

theorem Field.restores_codec (f : Field) : Field.codec.Restores f :=
  Codec.restores_name (Field.named?_name f)

theorem Aggregation.restores_codec (a : Aggregation) : Aggregation.codec.Restores a :=
  Codec.restores_name (Aggregation.named?_name a)

theorem Record.restores_codec (r : Record) : Record.codec.Restores r := by
  exact Row.RestoresUnder.record (.cons (restores_required_text "id" r.id) (by decide) <|
    .cons (restores_required_text "from_address" r.sender) (by decide) <|
    .cons (restores_required_text "to_address" r.recipient) (by decide) <|
    .cons (restores_required_text "subject" r.subject) (by decide) <|
    .cons (restores_required_text "date_received" r.received) (by decide) .nil) rfl

theorem Condition.restores_codec (c : Condition) : Condition.codec.Restores c := by
  have hfield := c.field.restores_codec
  exact Row.RestoresUnder.record (.cons (Field.restores_required hfield) (by decide) <|
    .cons (restores_required_text "predicate" c.predicate) (by decide) <|
    .cons (restores_required_text "value" c.target) (by decide) .nil) rfl

theorem Rule.restores_codec (rule : Rule) : Rule.codec.Restores rule := by
  have haggregation := rule.aggregation.restores_codec
  have hconditions := Codec.restores_list fun c (_ : c ∈ rule.conditions) ↦ c.restores_codec
  have hactions := Codec.restores_list fun a (_ : a ∈ rule.actions) ↦ Codec.restores_text a
  exact Row.RestoresUnder.record (.cons (Field.restores_required haggregation) (by decide) <|
    .cons (Field.restores_required hconditions) (by decide) <|
    .cons (Field.restores_required hactions) (by decide) .nil) rfl

namespace RuleSet

theorem restores_codec (rules : RuleSet) : RuleSet.codec.Restores rules :=
  Codec.restores_list fun rule _ ↦ rule.restores_codec

/-- What is read is loaded if no list in it is empty. -/
theorem load_of_read {source : String} {rules : RuleSet}
    (hread : codec.readText source = .ok rules)
    (h : ∀ rule ∈ rules, rule.conditions ≠ [] ∧ rule.actions ≠ []) : load source = .ok rules := by
  rw [load, hread]
  dsimp only
  rw [emptyList?_eq_none_iff.mpr h]

end RuleSet

/-! ## Messages -/

namespace Mailbox

theorem Stub.restores_codec (s : Stub) : Stub.codec.Restores s := by
  exact Row.RestoresUnder.record (.cons (restores_required_text "id" s.id) (by decide) <|
    .cons (restores_optional_text "threadId" s.thread) (by decide) .nil) rfl

theorem Header.restores_codec (h : Header) : Header.codec.Restores h := by
  exact Row.RestoresUnder.record (.cons (restores_required_text "name" h.name) (by decide) <|
    .cons (restores_required_text "value" h.value) (by decide) .nil) rfl

theorem Part.restores_codec (p : Part) : Part.codec.Restores p := by
  have hmimeType := restores_optional_text "mimeType" p.mimeType
  have hheaders := Codec.restores_list fun h (_ : h ∈ p.headers) ↦ h.restores_codec
  exact Row.RestoresUnder.record (.cons hmimeType (by decide) <|
    .cons (Field.restores_defaulted hheaders) (by decide) .nil) rfl

theorem Message.restores_codec (m : Message) : Message.codec.Restores m := by
  have hlabels := Codec.restores_list fun label (_ : label ∈ m.labels) ↦ Codec.restores_text label
  have hpayload : (Json.Field.optional "payload" Part.codec).Restores m.payload :=
    Json.Field.restores_optional fun p _ ↦ ⟨p.restores_codec, by simp [Part.codec, Codec.record]⟩
  exact Row.RestoresUnder.record (.cons (restores_required_text "id" m.id) (by decide) <|
    .cons (restores_optional_text "threadId" m.thread) (by decide) <|
    .cons (Field.restores_defaulted hlabels) (by decide) <|
    .cons (restores_optional_text "snippet" m.snippet) (by decide) <|
    .cons (restores_optional_text "internalDate" m.internalDate) (by decide) <|
    .cons hpayload (by decide) .nil) rfl

theorem Listing.restores_codec {l : Listing} (h : ∀ n ∈ l.sizeEstimate, n < 2 ^ 64) :
    Listing.codec.Restores l := by
  have hmessages := Codec.restores_list fun s (_ : s ∈ l.messages) ↦ s.restores_codec
  have hsize : (Json.Field.optional "resultSizeEstimate" .natural).Restores l.sizeEstimate :=
    Json.Field.restores_optional fun n hn ↦
      ⟨Codec.restores_natural (h n hn), by simp [Codec.natural]⟩
  exact Row.RestoresUnder.record (.cons (Field.restores_defaulted hmessages) (by decide) <|
    .cons (restores_optional_text "nextPageToken" l.nextPage) (by decide) <|
    .cons hsize (by decide) .nil) rfl

theorem LabelChanges.restores_codec (c : LabelChanges) : LabelChanges.codec.Restores c := by
  -- a list that is left out is one whose absence means the same
  have hlabels (key : String) (labels : List String) :
      ({ Json.Field.defaulted key (.list .text) [] with hidden := List.isEmpty } :
        Json.Field (List String)).Restores labels := by
    cases labels with
    | nil => rfl
    | cons label labels =>
      exact Codec.restores_list fun label _ ↦ Codec.restores_text label
  exact Row.RestoresUnder.record (.cons (hlabels "addLabelIds" c.add) (by decide) <|
    .cons (hlabels "removeLabelIds" c.remove) (by decide) .nil) rfl

end Mailbox

/-! ## Stores -/

namespace Database

theorem restores_codec (d : Database) : Database.codec.Restores d := by
  have hmigrations := Codec.restores_list fun v (_ : v ∈ d.applied) ↦ Codec.restores_text v
  have hrecords : (Json.Field.optional "records" (.list Record.codec)).Restores
      (d.content.map Table.records) :=
    Json.Field.restores_optional fun records _ ↦
      ⟨Codec.restores_list fun r (_ : r ∈ records) ↦ r.restores_codec, by simp [Codec.list]⟩
  have hcontent : (d.content.map Table.records).map Table.mk = d.content := by
    cases d.content <;> rfl
  exact Row.RestoresUnder.record (.cons (Field.restores_required hmigrations) (by decide) <|
    .cons hrecords (by decide) .nil) (congrArg (Ledgered.mk d.applied) hcontent)

/-- **A store's file is read back as the database that it was written for.** -/
theorem ofImage?_image (d : Database) : ofImage? d.image = some d := by
  rw [ofImage?, image, d.restores_codec.roundTrips.indented]
  rfl

end Database

/-! ## All of them -/

open Mailbox in
/-- **Every document is read back as what it was written for**, whichever layout it has. A rule set
without empty lists is also loaded from it. -/
theorem documents_roundTrip :
    (∀ r : Record, Record.codec.RoundTrips r) ∧
      (∀ rules : RuleSet, RuleSet.codec.RoundTrips rules) ∧
      (∀ s : Stub, Stub.codec.RoundTrips s) ∧
      (∀ h : Header, Header.codec.RoundTrips h) ∧
      (∀ p : Mailbox.Part, Part.codec.RoundTrips p) ∧
      (∀ m : Message, Message.codec.RoundTrips m) ∧
      (∀ l : Listing, (∀ n ∈ l.sizeEstimate, n < 2 ^ 64) → Listing.codec.RoundTrips l) ∧
      (∀ c : LabelChanges, LabelChanges.codec.RoundTrips c) ∧
      (∀ tokens : Tokens, tokens.expires.Valid → Tokens.codec.RoundTrips tokens) ∧
      (∀ c : Credentials, c.tokens.expires.Valid → Credentials.codec.RoundTrips c) ∧
      ∀ rules : RuleSet, (∀ rule ∈ rules, rule.conditions ≠ [] ∧ rule.actions ≠ []) →
        RuleSet.load (RuleSet.codec.write rules).compactText = .ok rules ∧
          RuleSet.load (RuleSet.codec.write rules).indentedText = .ok rules := by
  refine ⟨fun r ↦ r.restores_codec.roundTrips, fun rules ↦ rules.restores_codec.roundTrips,
    fun s ↦ s.restores_codec.roundTrips, fun h ↦ h.restores_codec.roundTrips,
    fun p ↦ p.restores_codec.roundTrips, fun m ↦ m.restores_codec.roundTrips,
    fun l hsize ↦ (Listing.restores_codec hsize).roundTrips,
    fun c ↦ c.restores_codec.roundTrips,
    fun tokens hexpires ↦ (Tokens.restores_codec hexpires).roundTrips,
    fun c hexpires ↦ (Credentials.restores_codec hexpires).roundTrips, fun rules hlists ↦ ?_⟩
  have hread := rules.restores_codec.roundTrips
  exact ⟨RuleSet.load_of_read hread.compact hlists, RuleSet.load_of_read hread.indented hlists⟩

open Mailbox in
/-- A size that fills 64 bits, tokens that expire in a leap second before the year 0, and a rule
with quotes, controls and a character of four bytes in its texts. -/
theorem documents_roundTrip_of_extremes :
    let listing : Listing := ⟨[⟨"1", none⟩, ⟨"2", some "t"⟩], none, some 18446744073709551615⟩
    let tokens : Tokens := ⟨"a\"b", "\\\n", ⟨-62198755201, 1500000000⟩⟩
    let credentials : Credentials := ⟨"client\t", "🔑", tokens⟩
    let rules : RuleSet :=
      [⟨.any, [⟨.received, "less_than", "\u0001 \"days\""⟩, ⟨.sender, "equals", "🙂\\"⟩],
        ["mark_as_read", ""]⟩]
    ((∀ n ∈ listing.sizeEstimate, n < 2 ^ 64) ∧ Listing.codec.RoundTrips listing) ∧
      (tokens.expires.Valid ∧ Tokens.codec.RoundTrips tokens) ∧
      (credentials.tokens.expires.Valid ∧ Credentials.codec.RoundTrips credentials) ∧
      (∀ rule ∈ rules, rule.conditions ≠ [] ∧ rule.actions ≠ []) ∧
        RuleSet.load (RuleSet.codec.write rules).compactText = .ok rules ∧
        RuleSet.load (RuleSet.codec.write rules).indentedText = .ok rules := by
  intro listing tokens credentials rules
  obtain ⟨-, -, -, -, -, -, hlisting, -, htokens, hcredentials, hload⟩ := documents_roundTrip
  have hsize : ∀ n ∈ listing.sizeEstimate, n < 2 ^ 64 := by
    intro n hn
    obtain rfl := Option.some.inj hn
    norm_num
  have hexpires : tokens.expires.Valid := by decide
  have hlists : ∀ rule ∈ rules, rule.conditions ≠ [] ∧ rule.actions ≠ [] := by
    intro rule hrule
    obtain rfl := List.mem_singleton.mp hrule
    exact ⟨by simp, by simp⟩
  exact ⟨⟨hsize, hlisting listing hsize⟩, ⟨hexpires, htokens tokens hexpires⟩,
    ⟨hexpires, hcredentials credentials hexpires⟩, hlists, hload rules hlists⟩

end MailRules

import Mathlib
import MailRules.Mailbox.Client
import MailRules.Proofs.Json.Members
import MailRules.Proofs.Text.Utf8

/-!
# What the answers of the service may be written as

Messages, listings and grants as objects of JSON. The form of each says under which keys its parts
stand and which of them may be missing or null. It says nothing of the order of the members, of
blanks and escapes, or of what else there is in an object at any level, since the service sends much
more than is asked for. Every text that has the form is read as exactly the value, and a key that is
known and comes twice at any level is an error (`Client.answers_read_tolerantly`).
-/

namespace MailRules.Mailbox

open Json MailRules.Text
open Json.Tree (Holds IsList IsOption IsSigned IsText IsUnsigned)

/-! ## Forms -/

def IsHeader (t : Tree) (h : Header) : Prop :=
  t.IsObject fun members ↦ Holds members "name" IsText none h.name ∧
    Holds members "value" IsText none h.value

def IsPart (t : Tree) (p : Part) : Prop :=
  t.IsObject fun members ↦ Holds members "mimeType" (IsOption IsText) (some none) p.mimeType ∧
    Holds members "headers" (IsList IsHeader) (some []) p.headers

def IsMessage (t : Tree) (m : Message) : Prop :=
  t.IsObject fun members ↦ Holds members "id" IsText none m.id ∧
    Holds members "threadId" (IsOption IsText) (some none) m.thread ∧
    Holds members "labelIds" (IsList IsText) (some []) m.labels ∧
    Holds members "snippet" (IsOption IsText) (some none) m.snippet ∧
    Holds members "internalDate" (IsOption IsText) (some none) m.internalDate ∧
    Holds members "payload" (IsOption IsPart) (some none) m.payload

def IsStub (t : Tree) (s : Stub) : Prop :=
  t.IsObject fun members ↦ Holds members "id" IsText none s.id ∧
    Holds members "threadId" (IsOption IsText) (some none) s.thread

def IsListing (t : Tree) (l : Listing) : Prop :=
  t.IsObject fun members ↦ Holds members "messages" (IsList IsStub) (some []) l.messages ∧
    Holds members "nextPageToken" (IsOption IsText) (some none) l.nextPage ∧
    Holds members "resultSizeEstimate" (IsOption IsUnsigned) (some none) l.sizeEstimate

def IsGrant (t : Tree) (g : Grant) : Prop :=
  t.IsObject fun members ↦ Holds members "access_token" IsText none g.access ∧
    Holds members "expires_in" IsSigned none g.lifetime ∧
    Holds members "refresh_token" (IsOption IsText) (some none) g.refresh

/-! ## Known keys -/

def Header.schema : Schema := .record [("name", .leaf), ("value", .leaf)]

def Part.schema : Schema := .record [("mimeType", .leaf), ("headers", .list Header.schema)]

def Message.schema : Schema :=
  .record [("id", .leaf), ("threadId", .leaf), ("labelIds", .list .leaf), ("snippet", .leaf),
    ("internalDate", .leaf), ("payload", Part.schema)]

def Stub.schema : Schema := .record [("id", .leaf), ("threadId", .leaf)]

def Listing.schema : Schema :=
  .record [("messages", .list Stub.schema), ("nextPageToken", .leaf),
    ("resultSizeEstimate", .leaf)]

def Grant.schema : Schema :=
  .record [("access_token", .leaf), ("expires_in", .leaf), ("refresh_token", .leaf)]

/-! ## The codecs -/

theorem tolerates_text : Codec.text.Tolerates .leaf IsText := Codec.takes_text.tolerates

theorem tolerates_optional_text : Codec.text.option.Tolerates .leaf (IsOption IsText) :=
  tolerates_text.option (by simp [IsText])

/-- A null is no object. -/
theorem not_isObject_null {held : List (String × Tree) → Prop} :
    ¬Tree.IsObject held (.word .null) := by
  rintro ⟨_, _, h, -⟩
  cases h

theorem Header.tolerates_codec : Header.codec.Tolerates Header.schema IsHeader := by
  have hrow := Row.Tolerates.nil
    |>.cons (.required "value" .text) tolerates_text (by simp)
    |>.cons (.required "name" .text) tolerates_text (by simp [Field.required])
  refine (hrow.record _ _).imp ?_
  rintro t ⟨name, value⟩ h
  refine ⟨(name, value, ()), h.imp ?_, rfl⟩
  rintro ms ⟨hname, hvalue⟩
  exact ⟨hname, hvalue, trivial⟩

theorem Part.tolerates_codec : Part.codec.Tolerates Part.schema IsPart := by
  have hrow := Row.Tolerates.nil
    |>.cons (.defaulted "headers" Header.codec.list []) Header.tolerates_codec.list (by simp)
    |>.cons (.optional "mimeType" .text) tolerates_optional_text
      (by simp [Field.defaulted, Field.optional])
  refine (hrow.record _ _).imp ?_
  rintro t ⟨mimeType, headers⟩ h
  refine ⟨(mimeType, headers, ()), h.imp ?_, rfl⟩
  rintro ms ⟨htype, hheaders⟩
  exact ⟨htype, hheaders, trivial⟩

theorem Message.tolerates_codec : Message.codec.Tolerates Message.schema IsMessage := by
  have hrow := Row.Tolerates.nil
    |>.cons (.optional "payload" Part.codec)
      (Part.tolerates_codec.option fun _ ↦ not_isObject_null) (by simp)
    |>.cons (.optional "internalDate" .text) tolerates_optional_text (by simp [Field.optional])
    |>.cons (.optional "snippet" .text) tolerates_optional_text (by simp [Field.optional])
    |>.cons (.defaulted "labelIds" (.list .text) []) tolerates_text.list
      (by simp [Field.optional, Field.defaulted])
    |>.cons (.optional "threadId" .text) tolerates_optional_text
      (by simp [Field.optional, Field.defaulted])
    |>.cons (.required "id" .text) tolerates_text
      (by simp [Field.optional, Field.defaulted, Field.required])
  refine (hrow.record _ _).imp ?_
  rintro t ⟨id, thread, labels, snippet, internalDate, payload⟩ h
  refine ⟨(id, thread, labels, snippet, internalDate, payload, ()), h.imp ?_, rfl⟩
  rintro ms ⟨hid, hthread, hlabels, hsnippet, hdate, hpayload⟩
  exact ⟨hid, hthread, hlabels, hsnippet, hdate, hpayload, trivial⟩

theorem Stub.tolerates_codec : Stub.codec.Tolerates Stub.schema IsStub := by
  have hrow := Row.Tolerates.nil
    |>.cons (.optional "threadId" .text) tolerates_optional_text (by simp)
    |>.cons (.required "id" .text) tolerates_text (by simp [Field.optional, Field.required])
  refine (hrow.record _ _).imp ?_
  rintro t ⟨id, thread⟩ h
  refine ⟨(id, thread, ()), h.imp ?_, rfl⟩
  rintro ms ⟨hid, hthread⟩
  exact ⟨hid, hthread, trivial⟩

theorem Listing.tolerates_codec : Listing.codec.Tolerates Listing.schema IsListing := by
  have hrow := Row.Tolerates.nil
    |>.cons (.optional "resultSizeEstimate" .natural)
      (Codec.tolerates_natural.option (by simp [IsUnsigned])) (by simp)
    |>.cons (.optional "nextPageToken" .text) tolerates_optional_text (by simp [Field.optional])
    |>.cons (.defaulted "messages" Stub.codec.list []) Stub.tolerates_codec.list
      (by simp [Field.optional, Field.defaulted])
  refine (hrow.record _ _).imp ?_
  rintro t ⟨messages, nextPage, sizeEstimate⟩ h
  refine ⟨(messages, nextPage, sizeEstimate, ()), h.imp ?_, rfl⟩
  rintro ms ⟨hmessages, hpage, hsize⟩
  exact ⟨hmessages, hpage, hsize, trivial⟩

theorem Grant.tolerates_codec : Grant.codec.Tolerates Grant.schema IsGrant := by
  have hrow := Row.Tolerates.nil
    |>.cons { Json.Field.optional "refresh_token" .text with beyond := some none }
      tolerates_optional_text (by simp)
    |>.cons (.required "expires_in" .integer) Codec.tolerates_integer
      (by simp [Field.optional, Field.required])
    |>.cons (.required "access_token" .text) tolerates_text
      (by simp [Field.optional, Field.required])
  refine (hrow.record _ _).imp ?_
  rintro t ⟨access, lifetime, refresh⟩ h
  refine ⟨(access, lifetime, refresh, ()), h.imp ?_, rfl⟩
  rintro ms ⟨haccess, hlifetime, hrefresh⟩
  exact ⟨haccess, hlifetime, hrefresh, trivial⟩

/-! ## Answers -/

theorem replaced_glyphs (s : List Char) : replaced (glyphs s) = s := by
  rw [replaced, glyphs, List.map_map]
  exact List.map_id s

theorem text_encoded (status : ℕ) (s : List Char) :
    Http.Response.text ⟨status, Utf8.encoded s⟩ = String.ofList s := by
  rw [Http.Response.text, Utf8.decode_encoded, replaced_glyphs]

namespace Client

/-- **Answers are read whatever else is in them.** A JSON text of a tree that has the form of a
message, a listing or a grant is read as just that: the members of an object may come in any order
and among any others, however deep these are. If a key that is known comes twice in some object,
nothing is read. -/
theorem answers_read_tolerantly {s : List Char} {t : Tree} (h : Json.Writes s t) (status : ℕ) :
    let answer : Http.Response := ⟨status, Utf8.encoded s⟩
    ((∀ m, IsMessage t m → Message.codec.readGlyphs (Utf8.decode answer.body) = .ok m) ∧
        (Repeats Message.schema t →
          ∃ trouble, Message.codec.readGlyphs (Utf8.decode answer.body) = .error trouble)) ∧
      ((∀ l, IsListing t l → Listing.codec.readGlyphs (Utf8.decode answer.body) = .ok l) ∧
        (Repeats Listing.schema t →
          ∃ trouble, Listing.codec.readGlyphs (Utf8.decode answer.body) = .error trouble)) ∧
      ((∀ g, IsGrant t g → Grant.codec.readText answer.text = .ok g) ∧
        (Repeats Grant.schema t →
          ∃ trouble, Grant.codec.readText answer.text = .error trouble)) := by
  intro answer
  have hgrant : Grant.codec.readText answer.text = Grant.codec.readGlyphs (glyphs s) := by
    rw [text_encoded, Codec.readText, String.toList_ofList]
  rw [hgrant, Utf8.decode_encoded]
  exact ⟨⟨fun _ ↦ Message.tolerates_codec.readGlyphs_eq h,
      Message.tolerates_codec.readGlyphs_fails h⟩,
    ⟨fun _ ↦ Listing.tolerates_codec.readGlyphs_eq h,
      Listing.tolerates_codec.readGlyphs_fails h⟩,
    ⟨fun _ ↦ Grant.tolerates_codec.readGlyphs_eq h,
      Grant.tolerates_codec.readGlyphs_fails h⟩⟩

/-- A member that nobody knows, with a number that nothing can hold, before one with an escape in
its key. -/
theorem answers_read_tolerantly_of_unknown_member :
    let s := "\x7b\"etag\": [[1e999]],\n\"\\u0069d\": \"m1\"\x7d".toList
    ∃ t, Json.Writes s t ∧
      Message.codec.readGlyphs (Utf8.decode (Utf8.encoded s)) =
        .ok ⟨"m1", none, [], none, none, none⟩ := by
  intro s
  have hetag : Means ['e', 't', 'a', 'g'] "etag" := means_of_plain (by simp [Plain])
  have hid : Means ['\\', 'u', '0', '0', '6', '9', 'd'] "id" := by
    have hdigit (n : ℕ) (hn : n < 16) : Hexadecimal (Nat.digitChar n) n := ⟨hn, Or.inl rfl⟩
    have hunit : WritesUnit ['0', '0', '6', '9'] 0x69 :=
      .mk (hdigit 0 (by decide)) (hdigit 0 (by decide)) (hdigit 6 (by decide))
        (hdigit 9 (by decide))
    refine ⟨[.unit 0x69, .char 'd'], ?_, .unit (c := 'i') (.char .nil)⟩
    exact .cons (.unit hunit) (.cons (.plain (by simp [Plain])) .nil)
  have htext : Means ['m', '1'] "m1" := means_of_plain (by simp [Plain])
  have hnumber : Numeral ['1', 'e', '9', '9', '9'] := by
    have hexponent : Exponent ['e', '9', '9', '9'] :=
      Or.inr ⟨'e', [], ['9', '9', '9'], rfl, Or.inl rfl, Or.inl rfl, by simp [isDigit], by simp⟩
    exact @Numeral.mk [] ['1'] [] _ (Or.inl rfl) ⟨by simp [isDigit], by simp, by simp⟩ (Or.inl rfl)
      hexponent
  have hone {s : List Char} {t : Tree} (h : Json.Writes s t) :
      Json.Writes ('[' :: s ++ [']']) (.array [t]) := by
    simpa using @Json.Writes.array [(s, t)] (by simp) (by simpa using h)
  have hnested : Json.Writes (' ' :: '[' :: '[' :: '1' :: 'e' :: ['9', '9', '9', ']', ']'])
      (.array [.array [.number ['1', 'e', '9', '9', '9']]]) :=
    @Json.Writes.blanks [' '] _ [] _ (by simp [Blanks]) (hone (hone (.number hnumber))) blanks_nil
  have hvalue : Json.Writes [' ', '"', 'm', '1', '"'] (.text ['m', '1']) :=
    @Json.Writes.blanks [' '] _ [] _ (by simp [Blanks]) (.text htext.quotable) blanks_nil
  have hmessage : IsMessage
      (.object [(['e', 't', 'a', 'g'], .array [.array [.number ['1', 'e', '9', '9', '9']]]),
        (['\\', 'u', '0', '0', '6', '9', 'd'], .text ['m', '1'])])
      ⟨"m1", none, [], none, none, none⟩ := by
    refine ⟨_, [("etag", _), ("id", _)], rfl, .cons ⟨hetag, rfl⟩ (.cons ⟨hid, rfl⟩ .nil), ?_⟩
    refine ⟨Or.inr ⟨_, ⟨[("etag", _)], [], rfl, by simp⟩, _, rfl, htext⟩, ?_⟩
    simp [Holds]
  have hwrites := @Json.Writes.object
    [(⟨[], ['e', 't', 'a', 'g'], [], [' ', '[', '[', '1', 'e', '9', '9', '9', ']', ']']⟩, _),
      (⟨['\n'], ['\\', 'u', '0', '0', '6', '9', 'd'], [], [' ', '"', 'm', '1', '"']⟩, _)]
    (by simp)
    (List.forall_mem_cons.mpr ⟨⟨blanks_nil, hetag.quotable, blanks_nil⟩,
      List.forall_mem_singleton.mpr ⟨by simp [Blanks], hid.quotable, blanks_nil⟩⟩)
    (List.forall_mem_cons.mpr ⟨hnested, List.forall_mem_singleton.mpr hvalue⟩)
  have hspelled {u : List Char} {t : Tree} (h : Json.Writes u t) (heq : s = u) :
      Json.Writes s t := heq ▸ h
  have hsource := hspelled hwrites (by decide +kernel)
  exact ⟨_, hsource, (answers_read_tolerantly hsource 200).1.1 _ hmessage⟩

end Client

end MailRules.Mailbox

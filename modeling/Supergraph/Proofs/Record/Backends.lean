import Supergraph.Proofs.Json.Recovery
import Supergraph.Record.Backend

/-!
# Backends come back from their text

The configuration of a GraphQL server, a federation or a database is read back from the text that it
is written as (`GraphQLBackend.codec_recovers` and its siblings). That of a REST service may hold a
whole OpenAPI document as a value, which may nest too deep for the reader or hold floats that it
reads as others.

**Theorem (`OpenApiBackend.parse?_print_iff`).** A REST service is read back exactly if its document
is none given as a value, or one that comes back from its text within 125 levels.

**Proof.** Around the document stand two objects, and all else in them comes back. If the service
is read back, then nothing that was read nests deeper than the reader goes, so the document does not
either, and what was read is the text of the service as `reread` says. The document that is made of
it is that of the service, and it is the document as `reread` says: a canonical value stays
canonical.
-/

namespace Supergraph

open Json

variable {depth : Nat}

/-! ## Settings -/

theorem Setting.codec_recovers : codec.Recovers (depth + 1) := by
  have hvariable : environmentMembers.objectRecord.Recovers (depth + 1) :=
    .objectRecord <| .and (.required .text) (.optional .text)
  intro setting
  cases setting with
  | literal text => exact .string text
  | environment name default => exact hvariable (name, default)

theorem ScalarReplacement.codec_recovers : codec.Recovers (depth + 1) :=
  .record <| .imap <| .and (.required .text) <| .and (.required .text) <|
    .and (.optional .text) (.required .text)

theorem RefreshSettings.codec_recovers : codec.Recovers (depth + 1) :=
  .record <| .imap <| .and (.defaulted .bool) (.optional .word64)

theorem BackendSettings.members_recovers : members.Recovers (depth + 1) :=
  .imap <| .and (.optional .text) <| .and (.defaulted .word64)
    (.defaulted RefreshSettings.codec_recovers)

theorem Credentials.codec_recovers : codec.Recovers (depth + 2) :=
  .record <| .imap <| .and (.required .text) <| .and (.required Setting.codec_recovers) <|
    .and (.required .text) (.optional Setting.codec_recovers)

theorem ClientCertificate.codec_recovers : codec.Recovers (depth + 2) :=
  .record <| .imap <| .and (.required Setting.codec_recovers) <|
    .and (.required Setting.codec_recovers) (.defaulted .bool)

theorem HttpBackend.members_recovers : members.Recovers (depth + 2) :=
  .imap <| .and BackendSettings.members_recovers <| .and (.optional .text) <|
    .and (.defaulted <| .sortedMap Setting.codec_recovers) <|
    .and (.optional Credentials.codec_recovers) (.optional ClientCertificate.codec_recovers)

/-! ## Servers, federations and databases -/

theorem GraphQLBackend.codec_recovers : codec.Recovers (depth + 3) :=
  .imap <| .openRecord HttpBackend.members_recovers <| .and (.required Setting.codec_recovers) <|
    .and (.optional Setting.codec_recovers) <| .and (.optional Setting.codec_recovers) <|
    .and (.optional Setting.codec_recovers) <| .and (.defaulted .bool) <|
    .and (.optional .text) <| .and (.optional .text) <| .and (.defaulted .bool) <|
    .and (.listOrNothing .text) (.listOrNothing ScalarReplacement.codec_recovers)

theorem Subgraph.codec_recovers : codec.Recovers (depth + 3) :=
  .record <| .imap <| .and (.optional .text) <| .and (.required Setting.codec_recovers) <|
    .and (.defaulted <| .sortedMap Setting.codec_recovers) <|
    .and (.optional Credentials.codec_recovers) <|
    .and (.optional ClientCertificate.codec_recovers) <|
    .and (.optional Setting.codec_recovers) <| .and (.defaulted .bool) <|
    .and (.optional .text) <| .and (.optional .text)
    (.listOrNothing ScalarReplacement.codec_recovers)

theorem Federation.codec_recovers : codec.Recovers (depth + 5) :=
  .imap <| .openRecord BackendSettings.members_recovers <|
    .and (.required <| .list Subgraph.codec_recovers) (.optional .text)

theorem DatabaseBackend.codec_recovers : codec.Recovers (depth + 3) :=
  .imap <| .openRecord BackendSettings.members_recovers <| .and (.required .choice) <|
    .and (.required Setting.codec_recovers) <| .and (.optional .text) <|
    .and (.listOrNothing .text) <| .and (.optional .text)
    (.listOrNothing ScalarReplacement.codec_recovers)

/-! ## What is read -/

theorem mem_of_lookup {members : List (String × Json)} {name : String} {j : Json}
    (h : lookup members name = some j) : ∃ member ∈ members, member.2 = j := by
  obtain ⟨member, hfound, hvalue⟩ := Option.map_eq_some_iff.1 h
  exact ⟨member, List.mem_of_find?_eq_some hfound, hvalue⟩

theorem lookup_map (members : List (String × Json)) (f : Json → Json) (name : String) :
    lookup (members.map fun member => (member.1, f member.2)) name =
      (lookup members name).map f := by
  simp only [lookup, List.find?_map, Option.map_map]
  rfl

section Members

variable {α β : Type} {m : Members α} {n : Members β}

theorem and_decode_eq_some {apart : ∀ name ∈ m.names, name ∉ n.names} {f : Lookup} {v : α × β} :
    (m.and n apart).decode f = some v ↔ m.decode f = some v.1 ∧ n.decode f = some v.2 := by
  simp only [Members.and, Option.bind_eq_bind, Option.pure_def, Option.bind_eq_some_iff,
    Option.some.injEq]
  constructor
  · rintro ⟨x, hx, y, hy, rfl⟩
    exact ⟨hx, hy⟩
  · rintro ⟨hx, hy⟩
    exact ⟨v.1, hx, v.2, hy, rfl⟩

/-- A record is read from a look-up of what stands one level below it. -/
theorem exists_of_record_decode {nodup : m.names.Nodup} {j : Json} {v : α}
    (h : (m.record nodup).decode j = some v) :
    ∃ f : Lookup, m.decode f = some v ∧ (∀ members, j = .object members → f = lookup members) ∧
      ∀ name inner depth, f name = some inner → Nests (depth + 1) j → Nests depth inner := by
  cases j with
  | object members =>
    obtain ⟨-, hread⟩ := Option.ite_none_left_eq_some.1 h
    refine ⟨lookup members, hread, fun _ hsame => Json.object.inj hsame ▸ rfl, ?_⟩
    rintro name inner depth hfound ⟨⟩
    next hmembers =>
      obtain ⟨member, hmember, rfl⟩ := mem_of_lookup hfound
      exact hmembers member hmember
  | array items =>
    obtain ⟨-, hread⟩ := Option.ite_none_right_eq_some.1 h
    refine ⟨lookup (m.names.zip items), hread, fun _ hsame => (by cases hsame), ?_⟩
    rintro name inner depth hfound ⟨⟩
    next hitems =>
      obtain ⟨member, hmember, rfl⟩ := mem_of_lookup hfound
      exact hitems member.2 (List.of_mem_zip hmember).2
  | _ => cases h

/-- An alternative is read from a look-up that gives its kind. -/
theorem exists_of_alternative_decode {kind : String}
    {apart : ∀ name ∈ ["kind"], name ∉ m.names} {nodup : (m.withKind apart).names.Nodup} {j : Json}
    {v : α} (h : ((m.withKind apart).alternative kind nodup).decode j = some v) :
    ∃ f : Lookup, m.decode f = some v ∧ f "kind" = some (.string kind) ∧
      (∀ members, j = .object members → f = lookup members) ∧
      ∀ name inner depth, f name = some inner → Nests (depth + 1) j → Nests depth inner := by
  obtain ⟨⟨found, v'⟩, hrecord, hkind⟩ := Option.bind_eq_some_iff.1 h
  obtain ⟨rfl, hvalue⟩ := Option.ite_none_right_eq_some.1 hkind
  obtain rfl := Option.some.inj hvalue
  obtain ⟨f, hread, hobject, hnests⟩ := exists_of_record_decode hrecord
  exact ⟨f, (and_decode_eq_some.1 hread).2, Members.kind_of_decode_withKind hread, hobject, hnests⟩

end Members

/-! ## Sources of documents -/

namespace OpenApiSource

theorem exists_of_encode (source : OpenApiSource) :
    ∃ members, source.encode = .object members ∧ ∀ member ∈ members,
      (∃ text, member.2 = .string text) ∨
        ∃ document, source = .object document ∧ member.2 = document.value := by
  have htexts : ∀ name kind text : String, ∀ member ∈ [("kind", Json.string kind),
      (name, .string text)], ∃ text, member.2 = .string text := by
    intro name kind text member hmember
    simp only [List.mem_cons, List.not_mem_nil, or_false] at hmember
    rcases hmember with rfl | rfl <;> exact ⟨_, rfl⟩
  cases source with
  | file path => exact ⟨_, rfl, fun member hmember => .inl (htexts _ "file" path member hmember)⟩
  | text document =>
    exact ⟨_, rfl, fun member hmember => .inl (htexts _ "string" document member hmember)⟩
  | object document =>
    refine ⟨[("kind", .string "object"), ("openapiSpec", document.value)], rfl, ?_⟩
    intro member hmember
    simp only [List.mem_cons, List.not_mem_nil, or_false] at hmember
    rcases hmember with rfl | rfl
    · exact .inl ⟨_, rfl⟩
    · exact .inr ⟨document, rfl, rfl⟩

/-- A document that is read as a value was readable, and stood one level below its source. -/
theorem exists_of_decode {j : Json} {document : Json.Canonical}
    (h : codec.decode j = some (.object document)) :
    ∃ f : Lookup, ∃ read : Json, f "openapiSpec" = some read ∧ read.isReadable = true ∧
      document = read.toCanonical ∧ (∀ members, j = .object members → f = lookup members) ∧
      ∀ name inner depth, f name = some inner → Nests (depth + 1) j → Nests depth inner := by
  obtain ⟨-, hread⟩ := Option.ite_none_right_eq_some.1 h
  have hobject : objectCodec.decode j = some document := by
    simp [decode] at hread
    exact hread.2.2
  obtain ⟨f, hdocument, -, hlookup, hnests⟩ := exists_of_alternative_decode hobject
  obtain ⟨read, hfound, hcanonical⟩ := Option.bind_eq_some_iff.1 hdocument
  obtain ⟨hreadable, hsame⟩ := Option.ite_none_right_eq_some.1 hcanonical
  exact ⟨f, read, hfound, hreadable, (Option.some.inj hsame).symm, hlookup, hnests⟩

/-- A document that its own source is read as, from what its text is read as, comes back. -/
theorem reread_of_decode {document : Json.Canonical}
    (h : codec.decode (OpenApiSource.object document).encode.reread = some (.object document)) :
    document.value.reread = document.value := by
  obtain ⟨f, read, hfound, hreadable, hsame, hlookup, -⟩ := exists_of_decode h
  have hencode : (OpenApiSource.object document).encode.reread =
      .object ([("kind", .string "object"), ("openapiSpec", document.value)].map
        fun member => (member.1, member.2.reread)) :=
    reread_object _
  rw [hlookup _ hencode, lookup_map] at hfound
  obtain rfl : document.value.reread = read := Option.some.inj hfound
  rw [← canonical_reread document.canonical hreadable]
  exact (congrArg Canonical.value hsame).symm

end OpenApiSource

/-! ## REST services -/

namespace OpenApiBackend

theorem exists_of_encode (backend : OpenApiBackend) (depth : Nat) :
    ∃ members, codec.encode backend = .object members ∧
      lookup members "source" = some backend.source.encode ∧
      ∀ member ∈ members, member.2 = backend.source.encode ∨ member.2.Recoverable (depth + 2) := by
  have hrest : ((Members.optional "baseUrl" Codec.text Codec.text_neverNull).and <|
      (Members.defaulted "statusCodeUnions" Codec.bool false).and <|
      Members.listOrNothing "skipRenameRootFields" Codec.text).Recovers (depth + 2) :=
    .and (.optional .text) <| .and (.defaulted .bool) (.listOrNothing .text)
  refine ⟨_, rfl, ?_, fun member hmember => ?_⟩
  · have hother : lookup (HttpBackend.members.encode backend.http) "source" = none :=
      lookup_eq_none fun hmem =>
        absurd ((HttpBackend.members.names_encode backend.http).subset hmem) (by decide)
    show lookup (HttpBackend.members.encode backend.http ++ ("source", backend.source.encode) :: _)
      "source" = _
    rw [lookup_append, hother]
    rfl
  · rcases List.mem_append.1 hmember with hmember | hmember
    · exact .inr (HttpBackend.members_recovers backend.http member hmember)
    · rcases List.mem_cons.1 hmember with rfl | hmember
      · exact .inl rfl
      · exact .inr (hrest (backend.baseUrl, backend.statusCodeUnions, backend.skippedRootFields)
          member hmember)

/-- The source of a service is read from its member of that name. -/
theorem source_of_decode {j : Json} {backend : OpenApiBackend}
    (h : codec.decode j = some backend) :
    ∃ members source, j = .object members ∧ lookup members "source" = some source ∧
      OpenApiSource.codec.decode source = some backend.source := by
  obtain ⟨v, hv, rfl⟩ := Option.map_eq_some_iff.1 h
  cases j with
  | object members =>
    obtain ⟨-, hv⟩ := Option.ite_none_right_eq_some.1 hv
    obtain ⟨-, hv⟩ := Option.ite_none_left_eq_some.1 hv
    obtain ⟨-, hown⟩ := and_decode_eq_some.1 hv
    obtain ⟨hsource, -⟩ := and_decode_eq_some.1 hown
    obtain ⟨source, hfound, hread⟩ := Option.bind_eq_some_iff.1 hsource
    exact ⟨members, source, rfl, hfound, hread⟩
  | _ => cases hv

/-- What holds of all that is recoverable, and of an object if it holds of what is in it, holds of a
service if it holds of its document. -/
theorem encode_induct {P : Nat → Json → Prop}
    (hrecoverable : ∀ {depth j}, Recoverable depth j → P depth j)
    (hobject : ∀ {depth members}, (∀ member ∈ members, P depth member.2) →
      P (depth + 1) (.object members)) {backend : OpenApiBackend} {depth : Nat}
    (h : ∀ document, backend.source = .object document → P (depth + 1) document.value) :
    P (depth + 3) (codec.encode backend) := by
  obtain ⟨members, hencode, -, hmembers⟩ := backend.exists_of_encode depth
  obtain ⟨parts, hsource, hparts⟩ := backend.source.exists_of_encode
  rw [hencode]
  refine hobject fun member hmember => ?_
  rcases hmembers member hmember with hsame | hother
  · rw [hsame, hsource]
    refine hobject fun part hpart => ?_
    rcases hparts part hpart with ⟨text, htext⟩ | ⟨document, hdocument, hvalue⟩
    · exact htext ▸ hrecoverable (.string text)
    · exact hvalue ▸ h document hdocument
  · exact hrecoverable hother

/-- No service is read with a document that nests deeper than 125 levels. -/
theorem document_nests {text : String} {backend : OpenApiBackend}
    (h : codec.parse? text = some backend) {document : Json.Canonical}
    (hdocument : backend.source = .object document) : Nests 125 document.value := by
  obtain ⟨read, hparse, hdecode⟩ := Option.bind_eq_some_iff.1 h
  obtain ⟨members, source, rfl, hfound, hsource⟩ := source_of_decode hdecode
  rw [hdocument] at hsource
  obtain ⟨f, inner, hinner, -, rfl, -, hnests⟩ := OpenApiSource.exists_of_decode hsource
  obtain ⟨member, hmember, rfl⟩ := mem_of_lookup hfound
  have hmemberNests : Nests 126 member.2 := by
    cases nests_of_parse? hparse with
    | object hall => exact hall member hmember
  exact (hnests _ _ 125 hinner hmemberNests).canonical

/-- **A service is read back exactly if its document is**, when it is given as a value. -/
theorem parse?_print_iff (backend : OpenApiBackend) :
    codec.parse? (codec.print backend) = some backend ↔
      ∀ document, backend.source = .object document → document.value.Recoverable 125 := by
  constructor
  · intro h document hdocument
    have hparse := h
    have hnests : Nests Reader.nestingLimit (codec.encode backend) :=
      encode_induct Recoverable.nests .object fun other hother => document_nests h hother
    rw [Codec.parse?, Codec.print, parse?_print_of_nests hnests, Option.bind_some] at h
    obtain ⟨members, hencode, hlookup, -⟩ := backend.exists_of_encode 0
    obtain ⟨given, source, hgiven, hfound, hsource⟩ := source_of_decode h
    rw [hencode, reread_object] at hgiven
    rw [← Json.object.inj hgiven, lookup_map, hlookup, hdocument] at hfound
    obtain rfl := Option.some.inj hfound
    rw [hdocument] at hsource
    exact ⟨document_nests hparse hdocument, OpenApiSource.reread_of_decode hsource⟩
  · intro h
    exact Codec.parse?_print (encode_induct id .object h)

end OpenApiBackend

end Supergraph

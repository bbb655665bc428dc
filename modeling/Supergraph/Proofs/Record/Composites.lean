import Supergraph.Proofs.Json.Recovery
import Supergraph.Record.Composite

/-!
# Composites come back from their text

**Theorem (`composites_readBack`).** A composite of any kind is read back from the text that it is
written as. So is a payload, and it stays of its kind: although a payload is read as the first kind
that fits, what is written for one kind is never read as another.

**Proof.** No composite holds a float, and none nests deeper than nine levels, so all that is
written comes back from its text. Each record is written from its members, and recovers its values
one level further up than they do.
-/

namespace Supergraph

open Json

variable {depth : Nat}

/-! ## Nodes and configurations -/

theorem TypeFields.codec_recovers : codec.Recovers (depth + 2) :=
  .record <| .imap <| .and (.required .text) (.required <| .list .text)

theorem Coordinate.codec_recovers : codec.Recovers (depth + 1) :=
  .record <| .imap <| .and (.required .text) (.required .text)

theorem ArgumentConfig.codec_recovers : codec.Recovers (depth + 2) :=
  .record <| .imap <| .and (.required .text) <| .and (.required .choice) <|
    .and (.required <| .list .text) <| .and (.required .choice) (.required .text)

theorem FieldConfig.codec_recovers : codec.Recovers (depth + 4) :=
  .record <| .imap <| .and (.required .text) <| .and (.required .text) <|
    .and (.required .bool) <| .and (.required <| .list .text) <|
    .and (.required <| .list ArgumentConfig.codec_recovers) <|
    .and (.required <| .list .text) (.required .bool)

theorem TypeMapping.codec_recovers : codec.Recovers (depth + 1) :=
  .record <| .imap <| .and (.required .text) (.required .text)

theorem DirectiveMapping.codec_recovers : codec.Recovers (depth + 1) :=
  .record <| .imap <| .and (.required .text) (.required .text)

theorem EngineVariable.codec_recovers : codec.Recovers (depth + 1) :=
  .record <| .imap <| .and (.required .choice) <| .and (.required .text) <|
    .and (.required .text) <| .and (.required .text) (.required .text)

/-! ## Requests -/

theorem TokenSigning.codec_recovers : codec.Recovers (depth + 2) :=
  .record <| .imap <| .and (.required EngineVariable.codec_recovers) (.required .choice)

theorem TokenExchange.codec_recovers : codec.Recovers (depth + 2) :=
  .record <| .imap <| .and (.required EngineVariable.codec_recovers) <|
    .and (.required EngineVariable.codec_recovers) (.required .choice)

theorem Authentication.codec_recovers : codec.Recovers (depth + 3) :=
  .fullRecord <| .imap <| .and (.required .choice) <|
    .and (.nullable TokenSigning.codec_recovers) (.nullable TokenExchange.codec_recovers)

theorem EngineCertificate.codec_recovers : codec.Recovers (depth + 2) :=
  .record <| .imap <| .and (.required EngineVariable.codec_recovers) <|
    .and (.required EngineVariable.codec_recovers) (.required .bool)

theorem Fetch.headerCodec_recovers : headerCodec.Recovers (depth + 3) :=
  .record <| .required <| .list EngineVariable.codec_recovers

theorem Fetch.codec_recovers : codec.Recovers (depth + 5) :=
  .record <| .imap <| .and (.required EngineVariable.codec_recovers) <|
    .and (.optional EngineVariable.codec_recovers) <|
    .and (.optional EngineVariable.codec_recovers) <| .and (.required .choice) <|
    .and (.required <| .sortedMap headerCodec_recovers) <|
    .and (.optional Authentication.codec_recovers) <|
    .and (.optional EngineCertificate.codec_recovers) (.required .bool)

/-! ## Payloads -/

theorem FederationPayload.codec_recovers : codec.Recovers (depth + 1) :=
  .record <| .imap <| .and (.required .bool) (.required .text)

theorem GraphQLSubscription.codec_recovers : codec.Recovers (depth + 2) :=
  .record <| .imap <| .and (.required .bool) <|
    .and (.required EngineVariable.codec_recovers) (.required .bool)

theorem GraphQLPayload.codec_recovers : codec.Recovers (depth + 6) :=
  .record <| .imap <| .and (.required FederationPayload.codec_recovers) <|
    .and (.required Fetch.codec_recovers) <|
    .and (.required GraphQLSubscription.codec_recovers) (.required .text)

theorem RestSubscription.codec_recovers : codec.Recovers (depth + 1) :=
  .record <| .imap <| .and (.required .bool) <| .and (.optional .word64) (.optional .bool)

theorem StatusCodeType.codec_recovers : codec.Recovers (depth + 1) :=
  .record <| .imap <| .and (.required .word16) <| .and (.required .text) (.required .bool)

theorem RestPayload.codec_recovers : codec.Recovers (depth + 6) :=
  .record <| .imap <| .and (.required Fetch.codec_recovers) <|
    .and (.required RestSubscription.codec_recovers) <| .and (.required .text)
    (.required <| .list StatusCodeType.codec_recovers)

theorem DatabasePayload.codec_recovers : codec.Recovers (depth + 3) :=
  .record <| .imap <| .and (.required .text) <| .and (.required .text) <|
    .and (.required EngineVariable.codec_recovers) <|
    .and (.required <| .list Coordinate.codec_recovers) (.required <| .list .text)

theorem AnyPayload.codec_recovers : codec.Recovers (depth + 6)
  | .graphql payload => GraphQLPayload.codec_recovers payload
  | .rest payload => RestPayload.codec_recovers payload
  | .database payload => DatabasePayload.codec_recovers payload

/-! ## Composites -/

variable {Payload : Type} {payload : Codec Payload}

theorem DataSource.codec_recovers (h : payload.Recovers (depth + 3)) :
    (codec payload).Recovers (depth + 4) :=
  .record <| .imap <| .and (.optional .text) <| .and (.required .choice) <|
    .and (.required <| .list TypeFields.codec_recovers) <|
    .and (.required <| .list TypeFields.codec_recovers) <| .and (.required h) <|
    .and (.required <| .list DirectiveMapping.codec_recovers) (.required .word64)

theorem Composite.codec_recovers (h : payload.Recovers (depth + 3)) :
    (codec payload).Recovers (depth + 6) :=
  .record <| .imap <| .and (.required .word64) <| .and (.required .text) <|
    .and (.required <| .list <| DataSource.codec_recovers h) <|
    .and (.required <| .list FieldConfig.codec_recovers) <|
    .and (.required <| .list TypeMapping.codec_recovers) (.required <| .list .text)

/-- **Composites and payloads come back from their text**, and a payload of any kind, read as the
first kind that fits, is of the kind that it was written from. -/
theorem composites_readBack :
    (Composite.codec GraphQLPayload.codec).ReadsBack ∧
      (Composite.codec RestPayload.codec).ReadsBack ∧
      (Composite.codec DatabasePayload.codec).ReadsBack ∧
      (Composite.codec AnyPayload.codec).ReadsBack ∧ AnyPayload.codec.ReadsBack ∧
      (∀ p, AnyPayload.codec.parse? (GraphQLPayload.codec.print p) = some (.graphql p)) ∧
      (∀ p, AnyPayload.codec.parse? (RestPayload.codec.print p) = some (.rest p)) ∧
      ∀ p, AnyPayload.codec.parse? (DatabasePayload.codec.print p) = some (.database p) := by
  have hpayload : AnyPayload.codec.ReadsBack := Codec.Recovers.readsBack AnyPayload.codec_recovers
  refine ⟨?_, ?_, ?_, ?_, hpayload, fun p => hpayload (.graphql p), fun p => hpayload (.rest p),
    fun p => hpayload (.database p)⟩
  · exact Codec.Recovers.readsBack (Composite.codec_recovers GraphQLPayload.codec_recovers)
  · exact Codec.Recovers.readsBack (Composite.codec_recovers RestPayload.codec_recovers)
  · exact Codec.Recovers.readsBack (Composite.codec_recovers DatabasePayload.codec_recovers)
  · exact Codec.Recovers.readsBack (Composite.codec_recovers AnyPayload.codec_recovers)

end Supergraph

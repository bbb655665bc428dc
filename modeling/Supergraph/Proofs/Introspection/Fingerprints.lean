import Supergraph.Introspection.Fingerprint
import Supergraph.Proofs.Json.Unambiguity
import Supergraph.Proofs.Record.Backends

/-!
# Fingerprints tell configurations apart

The fingerprint of a backend is the digest of a text that holds its kind and its whole
configuration.

**Theorem (`fingerprints_separate`).** Two configurations have the same text only if they are of the
same kind and the same altogether, so they share a fingerprint only where the digest has a
collision. The text of a configuration is read back as the configuration, except for a REST service
whose document is given as a value that does not come back itself.

**Proof.** No two readable values have the same text (`print_injective`), all that is written is
readable, and every codec undoes its own writing. The text may be read as another value than the
one it was written from, but that value does not have the text.
-/

namespace Supergraph

/-! ## Texts and their bytes -/

theorem toList_loop_eq (bytes : ByteArray) (start : Nat) (done : List UInt8) :
    ByteArray.toList.loop bytes start done = done.reverse ++ bytes.data.toList.drop start := by
  induction hleft : bytes.size - start generalizing start done with
  | zero =>
    have hend : bytes.data.toList.length ≤ start := by
      show bytes.size ≤ start
      omega
    rw [ByteArray.toList.loop, if_neg (by omega), List.drop_of_length_le hend, List.append_nil]
  | succ left ih =>
    have hstart : start < bytes.data.toList.length := by
      show start < bytes.size
      omega
    have hget : bytes.get! start = bytes.data.toList[start] := by
      show bytes.data[start]! = _
      rw [getElem!_pos bytes.data start hstart, Array.getElem_toList]
    rw [ByteArray.toList.loop, if_pos (by omega), ih _ _ (by omega),
      List.drop_eq_getElem_cons hstart, hget, List.reverse_cons, List.append_assoc,
      List.singleton_append]

/-- No two texts have the same bytes. -/
theorem bytes_injective {text text' : String}
    (h : text.toByteArray.toList = text'.toByteArray.toList) : text = text' := by
  have hlist : ∀ bytes : ByteArray, bytes.toList = bytes.data.toList := fun bytes => by
    rw [ByteArray.toList, toList_loop_eq]
    rfl
  rw [hlist, hlist] at h
  exact String.toByteArray_inj.1 (ByteArray.ext (Array.toList_inj.1 h))

/-- Two different messages with the same digest. -/
def Sha256.Collides (a b : List UInt8) : Prop := a ≠ b ∧ hex a = hex b

/-! ## Configurations -/

/-- A backend of any kind, as it is configured. -/
inductive Configuration where
  | graphql (backend : GraphQLBackend)
  | federation (federated : Federation)
  | database (backend : DatabaseBackend)
  | openApi (backend : OpenApiBackend)

namespace Configuration

/-- A configuration as a subject of introspection. -/
def subject : Configuration → Subject
  | .graphql backend => backend.subject
  | .federation federated => federated.subject
  | .database backend => backend.subject
  | .openApi backend => backend.subject

def kind : Configuration → String
  | .graphql _ => "graphql"
  | .federation _ => "graphql-federation"
  | .database _ => "database"
  | .openApi _ => "openapi"

/-- A configuration without its kind, as JSON. -/
def json : Configuration → Json
  | .graphql backend => GraphQLBackend.codec.encode backend
  | .federation federated => Federation.codec.encode federated
  | .database backend => DatabaseBackend.codec.encode backend
  | .openApi backend => OpenApiBackend.codec.encode backend

/-- The text that a configuration is known by. -/
def text (c : Configuration) : String := Fingerprint.source c.kind c.json

/-- The message that the fingerprint of a configuration is the digest of. -/
def message (c : Configuration) : List UInt8 := c.text.toByteArray.toList

theorem fingerprint_eq (c : Configuration) :
    c.subject.fingerprint = ⟨Sha256.hex c.message⟩ := by
  cases c <;> rfl

theorem isReadable_json (c : Configuration) : c.json.isReadable = true := by
  cases c with
  | graphql backend => exact GraphQLBackend.codec.isReadable_encode backend
  | federation federated => exact Federation.codec.isReadable_encode federated
  | database backend => exact DatabaseBackend.codec.isReadable_encode backend
  | openApi backend => exact OpenApiBackend.codec.isReadable_encode backend

theorem eq_of_encode {α : Type} (codec : Json.Codec α) {a b : α}
    (h : codec.encode a = codec.encode b) : a = b := by
  have hread := codec.decode_encode b
  rw [← h, codec.decode_encode] at hread
  exact Option.some.inj hread

/-- A configuration is the only one of its kind with its JSON form. -/
theorem eq_of_json {c d : Configuration} (hkind : c.kind = d.kind) (h : c.json = d.json) :
    c = d := by
  cases c with
  | graphql backend =>
    cases d with
    | graphql other => exact congrArg graphql (eq_of_encode _ h)
    | _ => simp [kind] at hkind
  | federation federated =>
    cases d with
    | federation other => exact congrArg federation (eq_of_encode _ h)
    | _ => simp [kind] at hkind
  | database backend =>
    cases d with
    | database other => exact congrArg database (eq_of_encode _ h)
    | _ => simp [kind] at hkind
  | openApi backend =>
    cases d with
    | openApi other => exact congrArg openApi (eq_of_encode _ h)
    | _ => simp [kind] at hkind

/-- **No two configurations have the same text.** -/
theorem text_injective {c d : Configuration} (h : c.text = d.text) : c = d := by
  have hreadable : ∀ c : Configuration,
      (Json.array [.string c.kind, c.json]).isReadable = true := by
    intro c
    simp [c.isReadable_json]
  -- The text of the pair of both tells the kind and the configuration.
  have hsame := Json.print_injective (hreadable c) (hreadable d) h
  have hitems := Json.array.inj hsame
  simp only [List.cons.injEq, Json.string.injEq, and_true] at hitems
  exact eq_of_json hitems.1 hitems.2

end Configuration

/-- **Configurations have texts of their own**, so two of them share a fingerprint only where the
digest has a collision; and their texts are read back, but for documents that do not come back. -/
theorem fingerprints_separate :
    (∀ c d : Configuration, c.text = d.text → c = d) ∧
      (∀ c d : Configuration, c.subject.fingerprint = d.subject.fingerprint →
        c = d ∨ Sha256.Collides c.message d.message) ∧
      GraphQLBackend.codec.ReadsBack ∧ Federation.codec.ReadsBack ∧
      DatabaseBackend.codec.ReadsBack ∧
      ∀ backend, OpenApiBackend.codec.parse? (OpenApiBackend.codec.print backend) = some backend ↔
        ∀ document, backend.source = .object document → document.value.Recoverable 125 := by
  refine ⟨fun c d => Configuration.text_injective, fun c d h => ?_, ?_, ?_, ?_,
    OpenApiBackend.parse?_print_iff⟩
  · rw [c.fingerprint_eq, d.fingerprint_eq] at h
    by_cases hmessage : c.message = d.message
    · exact .inl (Configuration.text_injective (bytes_injective hmessage))
    · exact .inr ⟨hmessage, Fingerprint.mk.inj h⟩
  · exact Json.Codec.Recovers.readsBack GraphQLBackend.codec_recovers
  · exact Json.Codec.Recovers.readsBack Federation.codec_recovers
  · exact Json.Codec.Recovers.readsBack DatabaseBackend.codec_recovers

/-- The price list of a shop, its members in the order of their names. -/
def prices : Json := .object [("apples", .number (.real ⟨false, 6755399441055744, -52, by decide⟩)),
  ("pears", .number (.int 2 (by decide)))]

/-- The same price list, its members in another order. -/
def pricesReversed : Json := .object [("pears", .number (.int 2 (by decide))),
  ("apples", .number (.real ⟨false, 6755399441055744, -52, by decide⟩))]

/-- A document counts by its canonical form, and one with a float that is read as itself comes
back. -/
theorem fingerprints_separate_prices :
    OpenApiBackend.ofSource (.object prices.toCanonical) =
        .ofSource (.object pricesReversed.toCanonical) ∧
      OpenApiBackend.codec.parse?
          (OpenApiBackend.codec.print (.ofSource (.object prices.toCanonical))) =
        some (.ofSource (.object prices.toCanonical)) := by
  constructor
  · have htexts : (Configuration.openApi (.ofSource (.object prices.toCanonical))).text =
        (Configuration.openApi (.ofSource (.object pricesReversed.toCanonical))).text := by
      decide +kernel
    exact Configuration.openApi.inj (fingerprints_separate.1 _ _ htexts)
  · refine (fingerprints_separate.2.2.2.2.2 _).2 fun document hdocument => ?_
    have hcanonical : document.value = prices := by
      rw [← OpenApiSource.object.inj hdocument]
      decide +kernel
    rw [hcanonical]
    refine ⟨.object fun member hmember => ?_, by decide +kernel⟩
    simp only [List.mem_cons, List.not_mem_nil, or_false] at hmember
    rcases hmember with rfl | rfl <;> exact .number

/-- A service whose document is `3.3e30`. -/
def approximated : OpenApiBackend :=
  .ofSource (.object ⟨.number (.real ⟨false, 5861977570020827, 49, by decide⟩), rfl⟩)

/-- A document that is a float may be read back as the float next to it. -/
theorem approximated_not_readBack :
    OpenApiBackend.codec.parse? (OpenApiBackend.codec.print approximated) ≠ some approximated := by
  intro h
  have hsame := ((approximated.parse?_print_iff).1 h _ rfl).same
  exact absurd hsame (by decide +kernel)

end Supergraph

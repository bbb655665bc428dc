import Supergraph.Proofs.Consistency.Basic
import Supergraph.Proofs.Rename.Fields
import Supergraph.Proofs.Rename.Types

/-!
# Consistency and renames

A client renames types and fields of a composite, call by call, with lists of any shape: names may
be swapped, passed on or merged. A call that fails leaves the composite as it is.

**Theorem (`Composite.Consistent.stays`).** A consistent composite is consistent after every
sequence of calls, provided that every schema text written on the way reads back as what it was
written for.

The printed text is all that a call leaves of a schema, so what the calls do depends on reading it
again. `ReadsBackAlong` says this of the documents that a sequence of calls prints, and of no
others.
-/

namespace Supergraph

/-- One call of a client. -/
inductive RenameCall where
  | types (renames : List TypeRename)
  | fields (renames : List FieldRename)
deriving DecidableEq, Repr

namespace RenameCall

variable {α : Type}

/-- What the call gives to a composite. -/
def apply (call : RenameCall) (composite : Composite α) : Except Error (Composite α) :=
  match call with
  | types renames => composite.renameTypes renames
  | fields renames => composite.renameFields renames

/-- The composite after the call. -/
def perform (composite : Composite α) (call : RenameCall) : Composite α :=
  match call.apply composite with
  | .ok renamed => renamed
  | .error _ => composite

/-- The composite after several calls. -/
def performAll (composite : Composite α) (calls : List RenameCall) : Composite α :=
  calls.foldl perform composite

/-- The document that the call prints when it changes the schema text `schema`. Without renames
nothing is printed. -/
def printed? (schema : String) : RenameCall → Option Document
  | types renames =>
    if renames.isEmpty then none
    else (parseSchema schema).toOption.map (·.mapTypeNames (TypeRename.apply renames))
  | fields renames =>
    if renames.isEmpty then none
    else (parseSchema schema).toOption.bind fun document =>
      (FieldRename.applyToDocument renames document).toOption

/-- Whether all documents that the calls print read back. -/
def ReadsBackAlong (composite : Composite α) : List RenameCall → Prop
  | [] => True
  | call :: rest => (∀ document ∈ call.printed? composite.schema, document.ReadsBack) ∧
      ReadsBackAlong (perform composite call) rest

instance decidableReadsBackAlong (composite : Composite α) :
    ∀ calls, Decidable (ReadsBackAlong composite calls)
  | [] => isTrue trivial
  | call :: rest =>
    have := decidableReadsBackAlong (perform composite call) rest
    inferInstanceAs (Decidable (_ ∧ _))

end RenameCall

/-- Whether the composite is consistent, and is so after every sequence of calls that prints nothing
but documents that read back. -/
def Composite.StaysConsistent {α : Type} (composite : Composite α) : Prop :=
  ∀ calls, RenameCall.ReadsBackAlong composite calls →
    (RenameCall.performAll composite calls).Consistent

/-! ## Renaming types -/

namespace TypeRename

variable {renames : List TypeRename} {document : Document}

theorem coordinates_applyToFieldConfigs (renames : List TypeRename) (configs : List FieldConfig) :
    (applyToFieldConfigs renames configs).map (·.coordinate) =
      (configs.map (·.coordinate)).map (newNames renames).coordinate := by
  rw [applyToFieldConfigs, List.map_map, List.map_map]
  rfl

theorem declares_mapTypeNames (renames : List TypeRename) (document : Document) :
    (document.mapTypeNames (apply renames)).declares =
      document.declares.map (Prod.map (newNames renames).coordinate id) := by
  rw [Document.declares, Document.occurrences_mapTypeNames, Document.declares, List.map_map,
    List.map_map]
  refine List.map_congr_left fun o _ => ?_
  exact congrArg (Prod.mk _) (Field.isExternal_mapTypeNames _ o.field)

/-- Whatever a printed document keeps of itself, the renamed schema text shows of it. -/
theorem view_of_applyToSchema {β : Type} {view : Document → β} {schema renamed : String}
    (hschema : parseSchema schema = .ok document)
    (hrenamed : applyToSchema renames schema = .ok renamed)
    (hreads : ∀ printed ∈ (RenameCall.types renames).printed? schema, printed.ReadsBackAs view) :
    ∃ other, parseSchema renamed = .ok other ∧
      view other = view (document.mapTypeNames (apply renames)) := by
  rw [applyToSchema] at hrenamed
  split_ifs at hrenamed with hempty
  · obtain rfl := List.isEmpty_iff.1 hempty
    obtain rfl := Except.ok.inj hrenamed
    have hsame : document.mapTypeNames (apply []) = document := document.mapTypeNames_id
    exact ⟨document, hschema, by rw [hsame]⟩
  · rw [hschema] at hrenamed
    obtain rfl := Except.ok.inj hrenamed
    have hprinted : document.mapTypeNames (apply renames) ∈
        (RenameCall.types renames).printed? schema := by
      simp [RenameCall.printed?, hempty, hschema, Except.toOption]
    exact Document.readsBackAs_iff.1 (hreads _ hprinted)

theorem declares_of_applyToSchema {schema renamed : String}
    (hschema : parseSchema schema = .ok document)
    (hrenamed : applyToSchema renames schema = .ok renamed)
    (hreads : ∀ printed ∈ (RenameCall.types renames).printed? schema, printed.ReadsBack) :
    ∃ other, parseSchema renamed = .ok other ∧
      other.declares = document.declares.map (Prod.map (newNames renames).coordinate id) := by
  obtain ⟨other, hother, hdeclares⟩ := view_of_applyToSchema hschema hrenamed hreads
  exact ⟨other, hother, hdeclares.trans (declares_mapTypeNames renames document)⟩

end TypeRename

/-! ## Renaming fields -/

namespace FieldRename

variable {renames : List FieldRename} {document : Document}

theorem applyToNodes_eq (renames : List FieldRename) :
    applyToNodes renames = (List.map (newNames renames).node ·) := rfl

theorem coordinates_applyToFieldConfigs (renames : List FieldRename) (configs : List FieldConfig) :
    (applyToFieldConfigs renames configs).map (·.coordinate) =
      (configs.map (·.coordinate)).map (newNames renames).coordinate := by
  rw [applyToFieldConfigs, List.map_map, List.map_map]
  refine List.map_congr_left fun config _ => ?_
  show (applyToFieldConfig renames config).coordinate =
    ⟨config.typeName, (find? renames config.typeName config.fieldName).getD config.fieldName⟩
  unfold applyToFieldConfig
  cases find? renames config.typeName config.fieldName <;> rfl

theorem declares_of_applyUnlessEmpty {changed : Document}
    (h : applyUnlessEmpty renames document = .ok changed) :
    changed.declares = document.declares.map (Prod.map (newNames renames).coordinate id) := by
  rw [Document.declares, Document.declares, List.map_map]
  refine map_eq_of_forall₂ (forall₂_keepsType h) fun o _ renamed hr => ?_
  rw [hr.coordinate, hr.isExternal]
  rfl

/-- Whatever a printed document keeps of itself, the renamed schema text shows of it. -/
theorem view_of_applyToSchema {β : Type} {view : Document → β} {schema renamed : String}
    (hschema : parseSchema schema = .ok document)
    (hrenamed : applyToSchema renames schema = .ok renamed)
    (hreads : ∀ printed ∈ (RenameCall.fields renames).printed? schema, printed.ReadsBackAs view) :
    ∃ changed other, applyUnlessEmpty renames document = .ok changed ∧
      parseSchema renamed = .ok other ∧ view other = view changed := by
  unfold applyUnlessEmpty
  rw [applyToSchema] at hrenamed
  split_ifs at hrenamed ⊢ with hempty
  · obtain rfl := Except.ok.inj hrenamed
    exact ⟨document, document, rfl, hschema, rfl⟩
  · obtain ⟨read, hread, hrenamed⟩ := bind_eq_ok.1 hrenamed
    obtain rfl := Except.ok.inj (hschema.symm.trans hread)
    obtain ⟨changed, hchanged, hrenamed⟩ := bind_eq_ok.1 hrenamed
    obtain rfl := Except.ok.inj hrenamed
    have hprinted : changed ∈ (RenameCall.fields renames).printed? schema := by
      simp [RenameCall.printed?, hempty, hschema, Except.toOption, hchanged]
    obtain ⟨other, hother, hview⟩ := Document.readsBackAs_iff.1 (hreads _ hprinted)
    exact ⟨changed, other, hchanged, hother, hview⟩

theorem declares_of_applyToSchema {schema renamed : String}
    (hschema : parseSchema schema = .ok document)
    (hrenamed : applyToSchema renames schema = .ok renamed)
    (hreads : ∀ printed ∈ (RenameCall.fields renames).printed? schema, printed.ReadsBack) :
    ∃ other, parseSchema renamed = .ok other ∧
      other.declares = document.declares.map (Prod.map (newNames renames).coordinate id) := by
  obtain ⟨changed, other, hchanged, hother, hdeclares⟩ :=
    view_of_applyToSchema hschema hrenamed hreads
  exact ⟨other, hother, hdeclares.trans (declares_of_applyUnlessEmpty hchanged)⟩

end FieldRename

/-! ## Calls -/

variable {α : Type} {composite : Composite α}

/-- Renaming all parts of a composite alike keeps it consistent. -/
theorem Composite.Consistent.renamed (h : composite.Consistent) (ρ : Renaming)
    {renamed : Composite α}
    (hsources : renamed.dataSources = composite.dataSources.map (·.mapNodes (·.map ρ.node)))
    (hfields : renamed.configuredFields = composite.configuredFields.map ρ.coordinate)
    (hschema : ∀ document, parseSchema composite.schema = .ok document →
      ∃ other, parseSchema renamed.schema = .ok other ∧
        other.declares = document.declares.map (Prod.map ρ.coordinate id)) :
    renamed.Consistent := by
  obtain ⟨document, hdocument, hagrees⟩ := h
  obtain ⟨other, hother, hdeclares⟩ := hschema document hdocument
  have hnodes : renamed.nodeFields = composite.nodeFields.map ρ.coordinate := by
    rw [nodeFields, hsources, nodeFields_mapNodes, nodeFields]
  exact ⟨other, hother, hnodes ▸ hfields ▸ hagrees.map ρ.coordinate hdeclares⟩

namespace RenameCall

/-- One call keeps a composite consistent. -/
theorem consistent_perform (h : composite.Consistent) (call : RenameCall)
    (hreads : ∀ document ∈ call.printed? composite.schema, document.ReadsBack) :
    (perform composite call).Consistent := by
  unfold perform
  cases hcall : call.apply composite with
  -- A call that fails leaves the composite as it was.
  | error error => exact h
  | ok renamed =>
    cases call with
    | types renames =>
      obtain ⟨schema, hschema, hrenamed⟩ := bind_eq_ok.1 hcall
      obtain rfl := Except.ok.inj hrenamed
      refine h.renamed (TypeRename.newNames renames) ?_ ?_ fun document hdocument => ?_
      · rw [TypeRename.applyToNodes_eq]
      · exact TypeRename.coordinates_applyToFieldConfigs renames composite.fields
      · exact TypeRename.declares_of_applyToSchema hdocument hschema hreads
    | fields renames =>
      obtain ⟨schema, hschema, hrenamed⟩ := bind_eq_ok.1 hcall
      obtain rfl := Except.ok.inj hrenamed
      refine h.renamed (FieldRename.newNames renames) ?_ ?_ fun document hdocument => ?_
      · rw [FieldRename.applyToNodes_eq]
      · exact FieldRename.coordinates_applyToFieldConfigs renames composite.fields
      · exact FieldRename.declares_of_applyToSchema hdocument hschema hreads

end RenameCall

/-- **Composites stay consistent** under every sequence of renames. -/
theorem Composite.Consistent.stays (h : composite.Consistent) : composite.StaysConsistent := by
  intro calls hreads
  -- By induction on the calls, each of which starts from what the ones before made.
  induction calls generalizing composite with
  | nil => exact h
  | cons call rest ih =>
    obtain ⟨hcall, hrest⟩ := hreads
    exact ih (RenameCall.consistent_perform h call hcall) hrest

end Supergraph

import Supergraph.Proofs.Rename.Configurations
import Supergraph.Proofs.Rename.Edits
import Supergraph.Proofs.Schema.Equality

/-!
# Changes of composites

A call that renames types or fields changes the parts of a composite one by one: the document of
its schema, its nodes and its field configurations. A `Change` says what becomes of each part.

Between two calls the document is printed and read again. If it reads back, both calls together are
one change, which makes their changes part by part and prints the document once
(`apply_bind_apply`). So equations between sequences of calls are equations between changes, and
these only have to hold for the parts of the composite at hand (`apply_congr`).
-/

namespace Supergraph

/-- What becomes of the parts of a composite. A change that is idle does not read the schema text,
and would keep its document. -/
structure Change where
  idle : Bool
  document : Document → Except Error Document
  node : TypeFields → TypeFields
  config : FieldConfig → FieldConfig
  document_of_idle : idle → ∀ read, document read = .ok read

/-- The nodes of all data sources. -/
def Composite.nodes {α : Type} (composite : Composite α) : NodeList :=
  composite.dataSources.flatMap fun source => source.rootNodes ++ source.childNodes

namespace Change

variable {α : Type}

/-- The schema text after the change. -/
def onSchema (change : Change) (schema : String) : Except Error String :=
  if change.idle then .ok schema
  else parseSchema schema >>= fun document => (change.document document).map (·.print)

/-- The composite after the change. -/
def apply (change : Change) (composite : Composite α) : Except Error (Composite α) :=
  (change.onSchema composite.schema).map fun schema => { composite with
    schema := schema
    dataSources := composite.dataSources.map (·.mapNodes (List.map change.node))
    fields := composite.fields.map change.config }

/-- The document that is printed when the schema text `schema` is changed. -/
def printed? (change : Change) (schema : String) : Option Document :=
  if change.idle then none
  else (parseSchema schema).toOption.bind fun document => (change.document document).toOption

/-- The change that keeps everything. If it is not idle, it prints the document anew. -/
def keep (idle : Bool) : Change where
  idle := idle
  document := .ok
  node node := node
  config config := config
  document_of_idle _ _ := rfl

/-- One change, and then another one. -/
def after (second first : Change) : Change where
  idle := first.idle && second.idle
  document document := first.document document >>= second.document
  node node := second.node (first.node node)
  config config := second.config (first.config config)
  document_of_idle hidle document := by
    obtain ⟨hfirst, hsecond⟩ := Bool.and_eq_true_iff.1 hidle
    rw [first.document_of_idle hfirst, ok_bind, second.document_of_idle hsecond]

/-- Whether two changes do the same to the parts of a composite. -/
structure AgreeOn (composite : Composite α) (change other : Change) : Prop where
  idle : change.idle = other.idle
  document : ∀ document, parseSchema composite.schema = .ok document →
    change.document document = other.document document
  node : ∀ node ∈ composite.nodes, change.node node = other.node node
  config : ∀ config ∈ composite.fields, change.config config = other.config config

/-! ## Changes one after the other -/

section After

variable {composite : Composite α} {change first second other : Change} {schema : String}

theorem onSchema_bind_onSchema
    (hreads : ∀ printed ∈ first.printed? schema, printed.ReadsBackAs id) :
    (first.onSchema schema >>= second.onSchema) = (second.after first).onSchema schema := by
  -- An idle change does not even read the text, so it need not be one that is read back.
  by_cases hidle : first.idle
  · have hkeep : first.document = .ok := funext (first.document_of_idle hidle)
    simp only [onSchema, after, hidle, if_true, ok_bind, Bool.true_and, hkeep]
  · simp only [Change.printed?, hidle, Bool.false_eq_true, if_false] at hreads
    simp only [onSchema, after, hidle, Bool.false_eq_true, if_false, Bool.false_and]
    cases hparse : parseSchema schema with
    | error error => rfl
    | ok document =>
      simp only [ok_bind]
      cases hchanged : first.document document with
      | error error => rfl
      | ok changed =>
        have hprinted : changed ∈ (parseSchema schema).toOption.bind fun document =>
            (first.document document).toOption := by
          simp [hparse, hchanged, Except.toOption]
        obtain ⟨read, hread, hsame⟩ := Document.readsBackAs_iff.1 (hreads _ hprinted)
        -- Read again, the printed document is the changed one.
        obtain rfl : read = changed := hsame
        show (if second.idle then .ok read.print
          else parseSchema read.print >>= fun document => (second.document document).map _) =
            (second.document read).map _
        split_ifs with hsecond
        · rw [second.document_of_idle hsecond]
          rfl
        · rw [hread, ok_bind]

/-- **Changes one after the other are one change**, if the document in between reads back. -/
theorem apply_bind_apply
    (hreads : ∀ printed ∈ first.printed? composite.schema, printed.ReadsBackAs id) :
    (first.apply composite >>= second.apply) = (second.after first).apply composite := by
  have hsources : (composite.dataSources.map (·.mapNodes (List.map first.node))).map
      (·.mapNodes (List.map second.node)) =
        composite.dataSources.map (·.mapNodes (List.map (second.after first).node)) := by
    simp [DataSource.mapNodes, after, Function.comp_def]
  have hfields : (composite.fields.map first.config).map second.config =
      composite.fields.map (second.after first).config := List.map_map
  rw [apply, apply, ← onSchema_bind_onSchema hreads, ← hsources, ← hfields]
  cases first.onSchema composite.schema <;> rfl

/-- Only what changes do to the parts of the composite counts. -/
theorem apply_congr (h : AgreeOn composite change other) :
    change.apply composite = other.apply composite := by
  have hschema : change.onSchema composite.schema = other.onSchema composite.schema := by
    rw [onSchema, onSchema, h.idle]
    cases hparse : parseSchema composite.schema with
    | error error => rfl
    | ok document => rw [ok_bind, ok_bind, h.document document hparse]
  have hsources : composite.dataSources.map (·.mapNodes (List.map change.node)) =
      composite.dataSources.map (·.mapNodes (List.map other.node)) := by
    refine List.map_congr_left ?_
    intro source hsource
    have hnodes : ∀ node ∈ source.rootNodes ++ source.childNodes,
        change.node node = other.node node := by
      intro node hnode
      exact h.node node (List.mem_flatMap.2 ⟨source, hsource, hnode⟩)
    obtain ⟨hroots, hchildren⟩ := List.forall_mem_append.1 hnodes
    rw [DataSource.mapNodes, List.map_congr_left hroots, List.map_congr_left hchildren,
      DataSource.mapNodes]
  rw [apply, hschema, hsources, List.map_congr_left h.config, apply]

/-- Printing a schema text anew changes nothing if it is what is printed for it. -/
theorem apply_keep (idle : Bool)
    (hprinted : normalizeSchema composite.schema = .ok composite.schema) :
    (keep idle).apply composite = .ok composite := by
  have hschema : (keep idle).onSchema composite.schema = .ok composite.schema := by
    cases idle with
    | true => rfl
    | false => exact hprinted
  rw [apply, hschema]
  simp [keep, Except.map, DataSource.mapNodes]

/-- A change that succeeds changes the document, if there is one. -/
theorem document_ok_of_apply {renamed : Composite α} {document : Document}
    (happly : change.apply composite = .ok renamed)
    (hparse : parseSchema composite.schema = .ok document) :
    ∃ changed, change.document document = .ok changed := by
  obtain ⟨schema, hschema, rfl⟩ := map_eq_ok.1 happly
  by_cases hidle : change.idle
  · exact ⟨document, change.document_of_idle hidle document⟩
  · rw [onSchema, if_neg hidle, hparse, ok_bind] at hschema
    obtain ⟨changed, hchanged, -⟩ := map_eq_ok.1 hschema
    exact ⟨changed, hchanged⟩

/-- The schema of a changed composite is read as the changed document. -/
theorem document_of_apply {renamed : Composite α} (happly : change.apply composite = .ok renamed)
    (hreads : ∀ printed ∈ change.printed? composite.schema, printed.ReadsBackAs id) :
    (parseSchema renamed.schema).toOption = (parseSchema composite.schema).toOption.bind
      fun document => (change.document document).toOption := by
  obtain ⟨schema, hschema, rfl⟩ := map_eq_ok.1 happly
  by_cases hidle : change.idle
  · have hkeep : change.document = .ok := funext (change.document_of_idle hidle)
    rw [onSchema, if_pos hidle] at hschema
    rw [Except.ok.inj hschema, hkeep]
    exact (Option.bind_fun_some _).symm
  · rw [onSchema, if_neg hidle] at hschema
    obtain ⟨document, hparse, hschema⟩ := bind_eq_ok.1 hschema
    obtain ⟨changed, hchanged, rfl⟩ := map_eq_ok.1 hschema
    have hprinted : change.printed? composite.schema = some changed := by
      simp [printed?, hidle, hparse, hchanged, Except.toOption]
    obtain ⟨read, hread, hsame⟩ := Document.readsBackAs_iff.1 (hreads _ hprinted)
    obtain rfl : read = changed := hsame
    simp [hread, hparse, hchanged, Except.toOption]

end After

end Change

/-! ## Calls -/

variable {α : Type} {composite : Composite α}

/-- What renaming types changes. -/
def TypeRename.change (renames : List TypeRename) : Change where
  idle := renames.isEmpty
  document document := .ok (document.mapTypeNames (apply renames))
  node node := { node with typeName := apply renames node.typeName }
  config config := { config with typeName := apply renames config.typeName }
  document_of_idle hempty document := by
    rw [List.isEmpty_iff.1 hempty]
    exact congrArg Except.ok document.mapTypeNames_id

/-- What renaming fields changes. -/
def FieldRename.change (renames : List FieldRename) : Change where
  idle := renames.isEmpty
  document := applyUnlessEmpty renames
  node node := { node with fieldNames := node.fieldNames.map (apply renames node.typeName) }
  config := applyToFieldConfig renames
  document_of_idle hempty _ := if_pos hempty

theorem TypeRename.onSchema_change (renames : List TypeRename) (schema : String) :
    (change renames).onSchema schema = applyToSchema renames schema := by
  cases renames with
  | nil => rfl
  | cons =>
    unfold Change.onSchema applyToSchema
    cases parseSchema schema <;> rfl

theorem FieldRename.onSchema_change (renames : List FieldRename) (schema : String) :
    (change renames).onSchema schema = applyToSchema renames schema := by
  cases renames with
  | nil => rfl
  | cons r rest =>
    unfold Change.onSchema applyToSchema
    cases parseSchema schema with
    | error error => rfl
    | ok document =>
      show (applyToDocument (r :: rest) document).map _ =
        applyToDocument (r :: rest) document >>= fun document => pure document.print
      cases applyToDocument (r :: rest) document <;> rfl

namespace RenameCall

/-- What a call changes. -/
def change : RenameCall → Change
  | types renames => TypeRename.change renames
  | fields renames => FieldRename.change renames

/-- Whether the document that a call prints, if it prints one, is read as it was. -/
def Rereads (call : RenameCall) (schema : String) : Prop :=
  ∀ printed ∈ call.printed? schema, printed.ReadsBackAs id

instance (call : RenameCall) (schema : String) : Decidable (call.Rereads schema) :=
  inferInstanceAs (Decidable (∀ _ ∈ _, _))

theorem apply_change (call : RenameCall) (composite : Composite α) :
    call.change.apply composite = call.apply composite := by
  cases call with
  | types renames =>
    show (TypeRename.change renames).apply composite = composite.renameTypes renames
    rw [Change.apply, TypeRename.onSchema_change, Composite.renameTypes]
    cases TypeRename.applyToSchema renames composite.schema <;> rfl
  | fields renames =>
    show (FieldRename.change renames).apply composite = composite.renameFields renames
    rw [Change.apply, FieldRename.onSchema_change, Composite.renameFields]
    cases FieldRename.applyToSchema renames composite.schema <;> rfl

theorem printed?_change (call : RenameCall) (schema : String) :
    call.change.printed? schema = call.printed? schema := by
  cases call with
  | types renames =>
    cases renames with
    | nil => rfl
    | cons =>
      unfold Change.printed? printed?
      cases parseSchema schema <;> rfl
  | fields renames => cases renames <;> rfl

/-- **Two calls make one change**, if the document in between is read as it was. -/
theorem apply_bind_apply {first : RenameCall} (hreads : first.Rereads composite.schema)
    (second : RenameCall) :
    (first.apply composite >>= second.apply) =
      (second.change.after first.change).apply composite := by
  rw [← apply_change, ← funext second.apply_change]
  refine Change.apply_bind_apply ?_
  rw [printed?_change]
  exact hreads

/-- Two calls do what a third one does, if this is so part by part. -/
theorem apply_bind_apply_of_agreeOn (first second both : RenameCall)
    (hreads : first.Rereads composite.schema)
    (hagree : Change.AgreeOn composite (second.change.after first.change) both.change) :
    (first.apply composite >>= second.apply) = both.apply composite :=
  calc first.apply composite >>= second.apply
    _ = (second.change.after first.change).apply composite := apply_bind_apply hreads second
    _ = both.change.apply composite := Change.apply_congr hagree
    _ = both.apply composite := both.apply_change composite

end RenameCall

end Supergraph

import Supergraph.Schema.Document

/-!
# Comparing documents

Documents can be compared, so it can be tested whether a text is read as a given document. Values
hold lists of values, and are compared along their lists and members (`Value.same_iff`); all other
parts of documents are compared field by field.
-/

namespace Supergraph

mutual

/-- Whether two values are the same. -/
def Value.same : Value → Value → Bool
  | .variable a, .variable b => a = b
  | .int a, .int b => a = b
  | .float a, .float b => a = b
  | .string a, .string b => a = b
  | .boolean a, .boolean b => a = b
  | .null, .null => true
  | .enum a, .enum b => a = b
  | .list as, .list bs => Value.sameItems as bs
  | .object as, .object bs => Value.sameMembers as bs
  | _, _ => false

def Value.sameItems : List Value → List Value → Bool
  | [], [] => true
  | a :: as, b :: bs => a.same b && Value.sameItems as bs
  | _, _ => false

def Value.sameMembers : List (String × Value) → List (String × Value) → Bool
  | [], [] => true
  | (m, a) :: as, (n, b) :: bs => m = n && a.same b && Value.sameMembers as bs
  | _, _ => false

end

mutual

theorem Value.same_iff (a b : Value) : a.same b ↔ a = b := by
  match a with
  | .variable _ | .int _ | .float _ | .string _ | .boolean _ | .enum _ | .null =>
    cases b <;> simp [Value.same]
  | .list as => cases b <;> simp [Value.same, Value.sameItems_iff as]
  | .object as => cases b <;> simp [Value.same, Value.sameMembers_iff as]

theorem Value.sameItems_iff (as bs : List Value) : Value.sameItems as bs ↔ as = bs := by
  match as with
  | [] => cases bs <;> simp [Value.sameItems]
  | a :: as => cases bs <;> simp [Value.sameItems, a.same_iff, Value.sameItems_iff as]

theorem Value.sameMembers_iff (as bs : List (String × Value)) :
    Value.sameMembers as bs ↔ as = bs := by
  match as with
  | [] => cases bs <;> simp [Value.sameMembers]
  | (m, a) :: as =>
    rcases bs with - | ⟨⟨n, b⟩, bs⟩ <;>
      simp [Value.sameMembers, a.same_iff, Value.sameMembers_iff as]

end

instance : DecidableEq Value := fun a b => decidable_of_iff _ (a.same_iff b)

deriving instance DecidableEq for Directive, InputField, Field, EnumValue, TypeBody,
  TypeDeclaration, DirectiveDefinition, Definition, Document

end Supergraph

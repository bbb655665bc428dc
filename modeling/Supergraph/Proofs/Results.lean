import Mathlib.Data.List.Forall2
import Supergraph.Rename

/-!
# Computations that succeed

What is known of the parts of a computation that succeeds: both halves of a sequence succeed
(`bind_eq_ok`), and so does each step of a traversal (`mapM_eq_ok`, `FieldRename.allOrLast_eq_ok`).
-/

namespace Supergraph

variable {ε α β : Type}

theorem ok_bind (a : α) (f : α → Except ε β) : (.ok a >>= f : Except ε β) = f a := rfl

theorem bind_eq_ok {x : Except ε α} {f : α → Except ε β} {b : β} :
    x >>= f = .ok b ↔ ∃ a, x = .ok a ∧ f a = .ok b := by
  cases x <;> simp [bind, Except.bind]

theorem map_eq_ok {x : Except ε α} {f : α → β} {b : β} :
    x.map f = .ok b ↔ ∃ a, x = .ok a ∧ f a = b := by
  cases x <;> simp [Except.map]

theorem mem_toOption {x : Except ε α} {a : α} : a ∈ x.toOption ↔ x = .ok a := by
  cases x <;> simp [Except.toOption]

theorem mapM_eq_ok {f : α → Except ε β} {as : List α} {bs : List β} :
    as.mapM f = .ok bs ↔ List.Forall₂ (fun a b => f a = .ok b) as bs := by
  induction as generalizing bs with
  | nil => cases bs <;> simp [pure, Except.pure]
  | cons a as ih =>
    rw [List.mapM_cons, bind_eq_ok, List.forall₂_cons_left_iff]
    refine exists_congr fun b => ?_
    rw [bind_eq_ok]
    constructor
    · rintro ⟨hb, bs, hbs, h⟩
      exact ⟨bs, hb, ih.1 hbs, (Except.ok.inj h).symm⟩
    · rintro ⟨bs, hb, hbs, rfl⟩
      exact ⟨hb, bs, ih.2 hbs, rfl⟩

theorem forall₂_map_map {γ δ : Type} {R : β → γ → Prop} {f : δ → β} {g : δ → γ} {items : List δ} :
    List.Forall₂ R (items.map f) (items.map g) ↔ ∀ item ∈ items, R (f item) (g item) := by
  rw [List.forall₂_map_left_iff, List.forall₂_map_right_iff, List.forall₂_same]

namespace FieldRename

theorem allOrLast_cons_eq_ok {item : Except Error α} {rest : List (Except Error α)} {as : List α} :
    allOrLast (item :: rest) = .ok as ↔
      ∃ b bs, item = .ok b ∧ allOrLast rest = .ok bs ∧ b :: bs = as := by
  cases item with
  | error error => cases hrest : allOrLast rest <;> simp [allOrLast, hrest]
  | ok b => cases hrest : allOrLast rest <;> simp [allOrLast, hrest]

/-- Reporting the last failure instead of the first one makes no difference here. -/
theorem allOrLast_eq_ok {f : α → Except Error β} {as : List α} {bs : List β} :
    allOrLast (as.map f) = .ok bs ↔ List.Forall₂ (fun a b => f a = .ok b) as bs := by
  induction as generalizing bs with
  | nil => cases bs <;> simp [allOrLast]
  | cons a as ih =>
    rw [List.map_cons, allOrLast_cons_eq_ok, List.forall₂_cons_left_iff]
    refine exists_congr fun b => ⟨?_, ?_⟩
    · rintro ⟨bs, hb, hbs, rfl⟩
      exact ⟨bs, hb, ih.1 hbs, rfl⟩
    · rintro ⟨bs, hb, hbs, rfl⟩
      exact ⟨bs, hb, ih.2 hbs, rfl⟩

end FieldRename

end Supergraph

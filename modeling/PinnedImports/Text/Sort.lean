/-!
# Stable sorting

`sortBy` sorts by insertion. Elements that are ordered both ways keep the order they came in
(`filter_sortBy`).
-/

set_option autoImplicit false

namespace PinnedImports.Text

universe u

variable {α : Type u}

/-- The list with one more element, in front of the first that it is ordered before. -/
def insertBy (le : α → α → Bool) (a : α) : List α → List α
  | [] => [a]
  | b :: rest => if le a b then a :: b :: rest else b :: insertBy le a rest

/-- The list in order. -/
def sortBy (le : α → α → Bool) : List α → List α
  | [] => []
  | a :: rest => insertBy le a (sortBy le rest)

theorem insertBy_perm (le : α → α → Bool) (a : α) (as : List α) :
    (insertBy le a as).Perm (a :: as) := by
  induction as with
  | nil => exact .refl _
  | cons b rest ih =>
    rw [insertBy]
    split
    · exact .refl _
    · exact (List.Perm.cons b ih).trans (.swap a b rest)

/-- Sorting only moves elements. -/
theorem sortBy_perm (le : α → α → Bool) (as : List α) : (sortBy le as).Perm as := by
  induction as with
  | nil => exact .refl _
  | cons a rest ih => exact (insertBy_perm le a _).trans (ih.cons a)

theorem pairwise_insertBy {le : α → α → Bool} (total : ∀ a b, le a b = true ∨ le b a = true)
    (trans : ∀ a b c, le a b = true → le b c = true → le a c = true) (a : α) {as : List α}
    (h : as.Pairwise (fun a b => le a b = true)) :
    (insertBy le a as).Pairwise (fun a b => le a b = true) := by
  induction as with
  | nil => simp [insertBy]
  | cons b rest ih =>
    obtain ⟨hb, hrest⟩ := List.pairwise_cons.1 h
    rw [insertBy]
    split
    · rename_i hab
      refine List.pairwise_cons.2 ⟨fun c hc => ?_, h⟩
      rcases List.mem_cons.1 hc with rfl | hc
      · exact hab
      · exact trans _ _ _ hab (hb c hc)
    · rename_i hab
      refine List.pairwise_cons.2 ⟨fun c hc => ?_, ih hrest⟩
      rcases List.mem_cons.1 ((insertBy_perm le a rest).mem_iff.1 hc) with rfl | hc
      · exact (total _ _).resolve_left hab
      · exact hb c hc

/-- A sorted list is in order, for an order that is total and transitive. -/
theorem pairwise_sortBy {le : α → α → Bool} (total : ∀ a b, le a b = true ∨ le b a = true)
    (trans : ∀ a b c, le a b = true → le b c = true → le a c = true) (as : List α) :
    (sortBy le as).Pairwise (fun a b => le a b = true) := by
  induction as with
  | nil => exact .nil
  | cons a rest ih => exact pairwise_insertBy total trans a ih

/-- A list in order stays as it is. -/
theorem sortBy_of_pairwise {le : α → α → Bool} {as : List α}
    (h : as.Pairwise (fun a b => le a b = true)) : sortBy le as = as := by
  induction as with
  | nil => rfl
  | cons a rest ih =>
    obtain ⟨hfirst, hrest⟩ := List.pairwise_cons.1 h
    rw [sortBy, ih hrest]
    cases rest with
    | nil => rfl
    | cons b rest => rw [insertBy, if_pos (hfirst b (List.mem_cons_self ..))]

theorem filter_insertBy {le : α → α → Bool} {p : α → Bool}
    (h : ∀ a b, p a = true → p b = true → le a b = true) (a : α) (as : List α) :
    (insertBy le a as).filter p = (a :: as).filter p := by
  induction as with
  | nil => rfl
  | cons b rest ih =>
    rw [insertBy]
    split
    · rfl
    · -- The element passes one that it is not ordered before, so not both satisfy `p`.
      rename_i hle
      rw [List.filter_cons, ih]
      cases ha : p a with
      | false => simp [ha, List.filter_cons]
      | true =>
        cases hb : p b with
        | false => simp [ha, hb]
        | true => exact absurd (h a b ha hb) hle

/-- Elements that are ordered both ways keep the order they came in. -/
theorem filter_sortBy {le : α → α → Bool} {p : α → Bool}
    (h : ∀ a b, p a = true → p b = true → le a b = true) (as : List α) :
    (sortBy le as).filter p = as.filter p := by
  induction as with
  | nil => rfl
  | cons a rest ih =>
    rw [sortBy, filter_insertBy h, List.filter_cons, ih, List.filter_cons]

end PinnedImports.Text

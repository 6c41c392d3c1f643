import Mathlib.Data.List.Nodup

/-!
# Lists without repetitions

`List.eraseDups` keeps the first of equal elements. What is left has no repetitions
(`nodup_eraseDups`) and stands in the order in which it was first seen (`pairwise_idxOf_eraseDups`).
-/

set_option autoImplicit false

namespace PinnedImports

universe u v

variable {α : Type u} {β : Type v}

theorem findSome?_filter_of_none {g : α → Option β} {p : α → Bool} {l : List α}
    (h : ∀ a ∈ l, p a = false → g a = none) : (l.filter p).findSome? g = l.findSome? g := by
  induction l with
  | nil => rfl
  | cons a rest ih =>
    have hrest := ih fun b hb => h b (List.mem_cons_of_mem _ hb)
    rw [List.filter_cons]
    split
    · rw [List.findSome?_cons, List.findSome?_cons, hrest]
    · rename_i hp
      rw [List.findSome?_cons, h a List.mem_cons_self (by simpa using hp), hrest]

variable [BEq α] [LawfulBEq α]

-- Every step of `eraseDups` takes the repetitions of the first element out of the rest, so both
-- recursions are on the length.

theorem eraseDups_filter (p : α → Bool) :
    ∀ l : List α, (l.filter p).eraseDups = l.eraseDups.filter p
  | [] => rfl
  | a :: rest => by
    have : (rest.filter fun b => !b == a).length < rest.length + 1 :=
      Nat.lt_succ_of_le (List.length_filter_le _ _)
    rw [List.eraseDups_cons, List.filter_cons, List.filter_cons]
    by_cases hp : p a = true
    · rw [if_pos hp, if_pos hp, List.eraseDups_cons, ← eraseDups_filter p (rest.filter _),
        List.filter_filter, List.filter_filter]
      simp only [Bool.and_comm]
    · -- A dropped element takes its repetitions with it.
      have hself : (rest.filter fun b => !b == a).filter p = rest.filter p := by
        rw [List.filter_filter]
        apply List.filter_congr
        intro b _
        by_cases hb : b = a
        · rw [hb]
          simpa using hp
        · simp [hb]
      rw [if_neg hp, if_neg hp, ← eraseDups_filter p (rest.filter _), hself]
termination_by l => l.length

theorem findSome?_eraseDups (g : α → Option β) :
    ∀ l : List α, l.eraseDups.findSome? g = l.findSome? g
  | [] => rfl
  | a :: rest => by
    have : (rest.filter fun b => !b == a).length < rest.length + 1 :=
      Nat.lt_succ_of_le (List.length_filter_le _ _)
    rw [List.eraseDups_cons, List.findSome?_cons, List.findSome?_cons,
      findSome?_eraseDups g (rest.filter _)]
    cases hg : g a with
    | some b => rfl
    | none =>
      apply findSome?_filter_of_none
      intro b _ hb
      have hba : b = a := by simpa using hb
      rw [hba, hg]
termination_by l => l.length

/-- An element that is mapped to nothing may as well be taken out. -/
theorem filterMap_eraseDups_filter_of_none {g : α → Option β} {a : α} (h : g a = none)
    (l : List α) :
    (l.filter fun b => !b == a).eraseDups.filterMap g = l.eraseDups.filterMap g := by
  rw [eraseDups_filter, List.filterMap_filter]
  apply List.filterMap_congr
  intro b _
  by_cases hb : b = a
  · simp [hb, h]
  · simp [hb]

theorem nodup_eraseDups (l : List α) : l.eraseDups.Nodup := by
  induction l with
  | nil => exact .nil
  | cons a rest ih =>
    rw [List.eraseDups_cons, eraseDups_filter, List.nodup_cons]
    constructor
    · simp
    · exact ih.filter _

/-- Without repetitions, elements stand in the order in which they are first seen. -/
theorem pairwise_idxOf_eraseDups (l : List α) :
    l.eraseDups.Pairwise fun a b => l.idxOf a < l.idxOf b := by
  induction l with
  | nil => exact .nil
  | cons a rest ih =>
    rw [List.eraseDups_cons, eraseDups_filter, List.pairwise_cons]
    -- Every element behind the first one differs from it, and so it is found one place later.
    have hnext : ∀ b ∈ rest.eraseDups.filter (fun b => !b == a),
        (a :: rest).idxOf b = rest.idxOf b + 1 := by
      intro b hb
      have hne : a ≠ b := by
        rintro rfl
        simp at hb
      exact List.idxOf_cons_ne rest hne
    constructor
    · intro b hb
      rw [List.idxOf_cons_self, hnext b hb]
      exact Nat.succ_pos _
    · have htail := ih.filter fun b => !b == a
      refine htail.imp_of_mem fun {b c} hb hc hlt => ?_
      rw [hnext b hb, hnext c hc]
      exact Nat.succ_lt_succ hlt

end PinnedImports

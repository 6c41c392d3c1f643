import PinnedImports.Proofs.Storage.Addition

/-!
# What a replacement changes

A file that is replaced as a whole is a regular file behind it, with the new text and with the
permission bits that its path showed, and every other entry of the tree is the one that it was
(`Node.replaceText_replaced`). A link at the path is replaced itself, so the file to which it led is one
of the others.
-/

set_option autoImplicit false

namespace PinnedImports.Storage.Node

/-! ## Exchanging an entry -/

/-- The tree `b` shows an entry at a place, and everywhere else what the tree `a` shows. -/
structure Exchanges (place : List String) (entry a b : Node) : Prop where
  there : b.descend? place = some entry
  elsewhere : ∀ names, names ≠ place → (b.descend? names).map bare = (a.descend? names).map bare

theorem descend?_put_self (root entry : Node) (place : List String) :
    (root.put entry place).descend? place = some entry := by
  induction place generalizing root with
  | nil => rfl
  | cons first place ih =>
    rw [descend?_put_cons, if_pos rfl]
    exact ih _

/-- **An entry in the place of one that is no directory either changes nothing else.** -/
theorem exchanges_put {entry : Node} (hentry : entry.isDirectory = false) {root old : Node}
    {place : List String} (hold : root.descend? place = some old) (hleaf : old.isDirectory = false) :
    Exchanges place entry root (root.put entry place) := by
  refine ⟨descend?_put_self root entry place, fun names hne => ?_⟩
  apply bare_put_of_vacant hentry _ _ hne
  · rcases List.eq_nil_or_concat place with rfl | ⟨above, last, rfl⟩
    · exact .inl rfl
    · -- What the last name leads to is an entry of what the names before it lead to.
      right
      rw [List.concat_eq_append] at hold ⊢
      rw [descend?_append, Option.bind_eq_some_iff] at hold
      obtain ⟨node, hnode, hlast⟩ := hold
      rw [descend?_singleton] at hlast
      obtain ⟨es, rfl⟩ := exists_entries hlast
      rw [List.dropLast_concat]
      exact ⟨es, hnode⟩
  · intro name rest
    rw [descend?_append, hold, Option.bind_some, descend?_of_leaf hleaf]

/-! ## Replacing a file -/

/-- A path that leads to a place without following a link at its end leads there in any case, unless
there is a link. -/
theorem locate_true_of_locate_false {root : Node} {path : String} {place : List String}
    (h : root.locate false path = .ok place) :
    root.locate true path = .ok place ∨ ∃ target, root.descend? place = some (link target) := by
  rcases root.locate_false path with hsame | ⟨found, target, hlink, hfound⟩
  · exact .inl (hsame.symm.trans h)
  · right
    rw [h, Except.ok.injEq] at hfound
    subst hfound
    exact ⟨target, hlink⟩

/-- A file can only be renamed to the place of an entry that is no directory, if there is one. -/
theorem renameTarget_eq_ok {root : Node} {path : String} {place : List String}
    (h : root.renameTarget path = .ok place) :
    root.locate false path = .ok place ∧
      ∀ entry, root.descend? place = some entry → entry.isDirectory = false := by
  rw [renameTarget] at h
  split at h
  · simp at h
  split at h
  · simp at h
  cases hlocate : root.locate false path with
  | error e =>
    rw [hlocate] at h
    simp at h
  | ok found =>
    rw [hlocate] at h
    simp only at h
    split at h
    · simp at h
    · rename_i hnot
      rw [Except.ok.injEq] at h
      subst h
      refine ⟨rfl, ?_⟩
      intro entry hentry
      cases entry with
      | file mode content => rfl
      | link target => rfl
      | directory es => exact absurd hentry (hnot es)

/-- A replacement that succeeds puts a file in the place of an entry that is no directory. -/
theorem replaceText_eq_ok {root root' : Node} {path text : String} {refuses : Refusals}
    (h : root.replaceText path text refuses = .ok root') :
    ∃ old place entry, root.stat path = .ok old ∧ root.locate false path = .ok place ∧
      root.descend? place = some entry ∧ entry.isDirectory = false ∧
      root' = root.put (file old.mode (.text text)) place := by
  obtain ⟨old, place, hstat, -, htarget, rfl⟩ := exists_of_replaceText h
  obtain ⟨hlocate, hleaf⟩ := renameTarget_eq_ok htarget
  -- Something stands behind the path, so something stands at the place, if only a link.
  have hentry : ∃ entry, root.descend? place = some entry := by
    rcases locate_true_of_locate_false hlocate with hsame | ⟨target, hlink⟩
    · obtain ⟨behind, hbehind, hnode⟩ := entryAt_eq_ok.1 hstat
      rw [hsame, Except.ok.injEq] at hbehind
      exact ⟨old, hbehind ▸ hnode⟩
    · exact ⟨_, hlink⟩
  obtain ⟨entry, hentry⟩ := hentry
  exact ⟨old, place, entry, hstat, hlocate, hentry, hleaf entry hentry, rfl⟩

/-- The tree `b` is the tree `a` with the file at a path replaced by a text. -/
structure Replaced (path text : String) (a b : Node) : Prop where
  /-- What stood at the path was a file or a link, and the file that stands there now has the permission
  bits that the path showed. -/
  exchanged : ∃ old place entry, a.stat path = .ok old ∧ a.locate false path = .ok place ∧
    a.descend? place = some entry ∧ entry.isDirectory = false ∧
    Exchanges place (file old.mode (.text text)) a b
  /-- The path of a regular file leads to it as before. -/
  regular : ∀ mode content, a.lstat path = .ok (file mode content) →
    b.stat path = .ok (file mode (.text text)) ∧ b.lstat path = .ok (file mode (.text text))

/-- **A replacement exchanges one entry.** -/
theorem replaceText_replaced {root root' : Node} {path text : String} {refuses : Refusals}
    (h : root.replaceText path text refuses = .ok root') : Replaced path text root root' := by
  obtain ⟨old, place, entry, hstat, hlocate, hentry, hleaf, rfl⟩ := replaceText_eq_ok h
  refine ⟨⟨old, place, entry, hstat, hlocate, hentry, hleaf, exchanges_put rfl hentry hleaf⟩, ?_⟩
  intro mode content hlstat
  obtain ⟨place', hplace', hfile⟩ := entryAt_eq_ok.1 hlstat
  rw [hlocate, Except.ok.injEq] at hplace'
  subst hplace'
  -- No link stands at the end of the path, so the entry behind it is the file itself.
  have hbehind : root.locate true path = .ok place := by
    rcases locate_true_of_locate_false hlocate with hsame | ⟨target, hlink⟩
    · exact hsame
    · rw [hfile] at hlink
      simp at hlink
  have hold : root.stat path = .ok (file mode content) := entryAt_eq_ok.2 ⟨place, hbehind, hfile⟩
  rw [hstat, Except.ok.injEq] at hold
  subst hold
  -- A lookup sees faces only, so both paths lead to the place as before.
  have hfaces : SameFaces root (root.put (file mode (.text text)) place) :=
    sameFaces_put rfl hfile rfl
  have hnew := descend?_put_self root (file mode (.text text)) place
  constructor
  · apply entryAt_eq_ok.2
    exact ⟨place, (hfaces.locate_eq true path).symm.trans hbehind, hnew⟩
  · apply entryAt_eq_ok.2
    exact ⟨place, (hfaces.locate_eq false path).symm.trans hlocate, hnew⟩

end PinnedImports.Storage.Node

import PinnedImports.Proofs.Storage.Lookup

/-!
# The steps of a replacement

A replacement makes a new file in the tree and works on it. A new file that is taken away again leaves the
tree as it was before it was made (`Scratch.drop_put`), and a step that fails leaves the tree as it found
it, so a replacement that fails at any step changes nothing (`run_replace`). One that succeeds has been
refused nothing (`Node.replaceText_eq_ok_iff`), and it puts the new file in one place
(`Node.replaceText_eq`).
-/

set_option autoImplicit false

namespace PinnedImports.Storage

namespace Node

/-! ## Entries -/

theorem putEntry_eq (name : String) (node : Node) (es : List (String × Node)) :
    putEntry name node es = Dictionary.insertEntry name node es := by
  induction es with
  | nil => rfl
  | cons entry rest ih => rw [putEntry, Dictionary.insertEntry, ih]

theorem lookup_putEntry (name other : String) (node : Node) (es : List (String × Node)) :
    (putEntry name node es).lookup other =
      if other = name then some node else es.lookup other := by
  rw [putEntry_eq]
  split
  · rename_i heq
    rw [heq, Dictionary.lookup_insertEntry_self]
  · rename_i hne
    exact Dictionary.lookup_insertEntry_of_ne node es hne

theorem putEntry_self (name : String) (x y : Node) (es : List (String × Node)) :
    putEntry name y (putEntry name x es) = putEntry name y es := by
  simp only [putEntry_eq, Dictionary.insertEntry_self]

/-- An entry under a new name is taken away by leaving the name out. -/
theorem filter_putEntry {name : String} {es : List (String × Node)}
    (h : ∀ entry ∈ es, entry.1 ≠ name) (node : Node) :
    (putEntry name node es).filter (fun entry => entry.1 != name) = es := by
  have hkept : es.filter (fun entry => entry.1 != name) = es :=
    List.filter_eq_self.2 fun entry hentry => bne_iff_ne.2 (h entry hentry)
  induction es with
  | nil => simp [putEntry]
  | cons entry rest ih =>
    obtain ⟨hfirst, hrest⟩ := List.forall_mem_cons.1 h
    rw [putEntry, if_neg (Ne.symm hfirst)]
    split
    · rw [List.filter_cons_of_neg (by simp), hkept]
    · rw [List.filter_cons, if_pos (bne_iff_ne.2 hfirst), ih hrest]
      exact List.filter_eq_self.2 fun entry hentry => bne_iff_ne.2 (hrest entry hentry)

/-! ## Changing the entries of one directory -/

theorem alterEntry_alterEntry (name : String) (f g : Node → Node) (es : List (String × Node)) :
    alterEntry name g (alterEntry name f es) = alterEntry name (fun node => g (f node)) es := by
  induction es with
  | nil => rfl
  | cons entry rest ih =>
    rw [alterEntry, alterEntry]
    split
    · rename_i heq
      rw [alterEntry, if_pos heq]
    · rename_i hne
      rw [alterEntry, if_neg hne, ih]

theorem alterEntry_eq_self {name : String} {f : Node → Node} {child : Node}
    {es : List (String × Node)} (hchild : es.lookup name = some child) (hf : f child = child) :
    alterEntry name f es = es := by
  induction es with
  | nil => rfl
  | cons entry rest ih =>
    obtain ⟨key, node⟩ := entry
    rw [alterEntry]
    rw [List.lookup_cons] at hchild
    split
    · rename_i heq
      simp only at heq
      rw [heq, beq_self_eq_true] at hchild
      obtain rfl : node = child := Option.some.inj hchild
      rw [hf]
    · rename_i hne
      rw [beq_false_of_ne hne] at hchild
      rw [ih hchild]

theorem lookup_alterEntry_self {name : String} {f : Node → Node} {child : Node}
    {es : List (String × Node)} (hchild : es.lookup name = some child) :
    (alterEntry name f es).lookup name = some (f child) := by
  induction es with
  | nil => simp at hchild
  | cons entry rest ih =>
    obtain ⟨key, node⟩ := entry
    rw [alterEntry]
    rw [List.lookup_cons] at hchild
    split
    · rename_i heq
      simp only at heq
      rw [heq, beq_self_eq_true] at hchild
      obtain rfl : node = child := Option.some.inj hchild
      rw [List.lookup_cons, heq, beq_self_eq_true]
    · rename_i hne
      rw [beq_false_of_ne hne] at hchild
      rw [List.lookup_cons, beq_false_of_ne hne]
      exact ih hchild

section Alter

variable {f g : List (String × Node) → List (String × Node)} {es : List (String × Node)}

theorem alter_alter (place : List String) (root : Node) :
    alter g place (alter f place root) = alter (fun es => g (f es)) place root := by
  induction place generalizing root with
  | nil => cases root <;> rfl
  | cons name names ih =>
    cases root with
    | file mode content => rfl
    | link target => rfl
    | directory es =>
      rw [alter, alter, alter, alterEntry_alterEntry]
      simp only [ih]

/-- The directory at a place is that of an entry of the root, further on. -/
theorem exists_child {root found : Node} {name : String} {names : List String}
    (h : root.descend? (name :: names) = some found) : ∃ es child, root = directory es ∧
      es.lookup name = some child ∧ child.descend? names = some found := by
  rw [descend?] at h
  cases root with
  | file mode content => simp [entries] at h
  | link target => simp [entries] at h
  | directory es =>
    rw [entries] at h
    cases hchild : es.lookup name with
    | none =>
      rw [hchild] at h
      simp at h
    | some child =>
      rw [hchild] at h
      exact ⟨es, child, rfl, hchild, h⟩

theorem alter_eq_self {place : List String} (hf : f es = es) :
    ∀ {root : Node}, root.descend? place = some (directory es) → alter f place root = root := by
  induction place with
  | nil =>
    intro root h
    rw [descend?, Option.some.injEq] at h
    rw [h, alter, hf]
  | cons name names ih =>
    intro root h
    obtain ⟨above, child, rfl, hchild, hfound⟩ := exists_child h
    rw [alter, alterEntry_eq_self hchild (ih hfound)]

theorem descend?_alter {place : List String} :
    ∀ {root : Node}, root.descend? place = some (directory es) →
      (alter f place root).descend? place = some (directory (f es)) := by
  induction place with
  | nil =>
    intro root h
    rw [descend?, Option.some.injEq] at h
    rw [h, alter, descend?]
  | cons name names ih =>
    intro root h
    obtain ⟨above, child, rfl, hchild, hfound⟩ := exists_child h
    rw [alter, descend?, entries, lookup_alterEntry_self hchild]
    exact ih hfound

end Alter

end Node

/-! ## The new file -/

open Node

theorem length_le_longest {es : List (String × Node)} {entry : String × Node} (h : entry ∈ es) :
    entry.1.length ≤ longest es := by
  induction es with
  | nil => simp at h
  | cons first rest ih =>
    rw [longest]
    rcases List.mem_cons.1 h with rfl | hrest
    · exact Nat.le_max_left _ _
    · exact (ih hrest).trans (Nat.le_max_right _ _)

theorem freshName_fresh {es : List (String × Node)} {entry : String × Node} (h : entry ∈ es) :
    entry.1 ≠ freshName es := by
  intro heq
  have hlength := length_le_longest h
  rw [heq, freshName, String.length_ofList, List.length_cons, List.length_replicate] at hlength
  omega

namespace Scratch

/-- The directory of the new file is there, and the name is that of no entry. -/
def Free (scratch : Scratch) (root : Node) : Prop :=
  ∃ es, root.descend? scratch.dir = some (directory es) ∧ ∀ entry ∈ es, entry.1 ≠ scratch.name

variable {scratch : Scratch} {root : Node}

theorem put_put (a b : Node) : scratch.put b (scratch.put a root) = scratch.put b root := by
  rw [put, put, alter_alter, put]
  simp only [putEntry_self]

/-- **A new file that is taken away leaves the tree as it was.** -/
theorem drop_put (h : scratch.Free root) (node : Node) :
    scratch.drop (scratch.put node root) = root := by
  obtain ⟨es, hdir, hfresh⟩ := h
  rw [drop, put, alter_alter]
  exact alter_eq_self (filter_putEntry hfresh node) hdir

theorem get?_put (h : scratch.Free root) (node : Node) :
    scratch.get? (scratch.put node root) = some node := by
  obtain ⟨es, hdir, -⟩ := h
  rw [get?, put, descend?_append, descend?_alter hdir, Option.bind_some, descend?_singleton, entries,
    lookup_putEntry, if_pos rfl]

theorem moveTo_put (h : scratch.Free root) (node : Node) (path : String) :
    scratch.moveTo path (scratch.put node root) =
      (root.renameTarget path).map fun place => root.put node place := by
  unfold moveTo
  rw [drop_put h, get?_put h]
  rfl

/-- A new file is made under a free name of a directory, or there is no directory. -/
theorem make_cases (dir : String) (root : Node) :
    (root.hasDirectory dir = true ∧ ∃ scratch : Scratch, scratch.Free root ∧
      make dir root = .ok (scratch, scratch.put (file 0o600 (.text "")) root)) ∨
    (root.hasDirectory dir = false ∧ make dir root = .error .notFound) := by
  unfold make directoryAt? hasDirectory stat entryAt
  cases root.locate true dir with
  | error e => exact .inr ⟨rfl, rfl⟩
  | ok place =>
    simp only
    cases hnode : root.descend? place with
    | none => exact .inr ⟨rfl, rfl⟩
    | some node =>
      cases node with
      | file mode content => exact .inr ⟨rfl, rfl⟩
      | link target => exact .inr ⟨rfl, rfl⟩
      | directory es =>
        refine .inl ⟨rfl, ⟨place, freshName es⟩, ⟨es, hnode, fun entry => freshName_fresh⟩, rfl⟩

end Scratch

/-! ## Steps -/

/-- A step that is refused or fails leaves the tree as it is, and the replacement ends. -/
theorem run_attempt_bind {α β : Type} (refuses : Refusals) (step : Step)
    (tell : OsError → ReplaceError) (act : Node → Except OsError (α × Node))
    (next : α → Filing β) (root : Node) :
    (attempt refuses step tell act >>= next).run root =
      match refuses.outcome step tell (act root) with
      | .error e => (.error e, root)
      | .ok (a, after) => (next a).run after := by
  have hrun : (attempt refuses step tell act >>= next).run root =
      ((match refuses.outcome step tell (act root) with
        | .error e => throw e
        | .ok (a, after) => do
          set after
          return a : Filing α) >>= next).run root := rfl
  rw [hrun]
  cases refuses.outcome step tell (act root) <;> rfl

theorem run_attempt {α : Type} (refuses : Refusals) (step : Step)
    (tell : OsError → ReplaceError) (act : Node → Except OsError (α × Node)) (root : Node) :
    (attempt refuses step tell act).run root =
      match refuses.outcome step tell (act root) with
      | .error e => (.error e, root)
      | .ok (a, after) => (.ok a, after) := by
  have h := run_attempt_bind refuses step tell act pure root
  rw [bind_pure] at h
  exact h

namespace Refusals

variable {α β : Type} {refuses : Refusals} {step : Step} {tell : OsError → ReplaceError}

theorem outcome_map (f : α → β) (result : Except OsError α) :
    refuses.outcome step tell (result.map f) = (refuses.outcome step tell result).map f := by
  unfold outcome
  cases refuses step <;> cases result <;> rfl

theorem outcome_eq_ok {result : Except OsError α} {a : α} :
    refuses.outcome step tell result = .ok a ↔ refuses step = .none ∧ result = .ok a := by
  unfold outcome
  cases refuses step <;> cases result <;> simp [Except.mapError]

end Refusals

/-! ## From the new file to its place -/

section Persisting

variable {scratch : Scratch} {root made made' : Node} {refuses : Refusals}

/-- On a tree with a new file, `made`, a computation comes to another tree, or it fails and the new file
is still where it was made. -/
def Settles (scratch : Scratch) (root made : Node) (m : Filing Unit)
    (result : Except ReplaceError Node) : Prop :=
  ∃ left, m.run (scratch.put made root) =
    match result with
    | .error e => (.error e, scratch.put left root)
    | .ok after => (.ok (), after)

/-- A step that only works on the new file comes before others. -/
theorem Settles.cons {step : Step} {tell : OsError → ReplaceError} {change : Node → Node}
    {next : Filing Unit} {result : Except ReplaceError Node}
    (hchange : change (scratch.put made root) = scratch.put made' root)
    (h : Settles scratch root made' next result) :
    Settles scratch root made
      (attempt refuses step tell (fun tree => .ok ((), change tree)) >>= fun () => next)
      (refuses.outcome step tell (.ok ()) >>= fun () => result) := by
  unfold Settles
  rw [run_attempt_bind]
  unfold Refusals.outcome
  cases refuses step with
  -- What is left of the new file is what it was before the step.
  | some e => exact ⟨made, rfl⟩
  | none =>
    simp only [Except.mapError, hchange]
    exact h

/-- Where the new file is renamed to, if no step fails. -/
def persistPlace (refuses : Refusals) (path : String) (root : Node) :
    Except ReplaceError (List String) := do
  refuses.outcome .write .fill (.ok ())
  refuses.outcome .sync .fill (.ok ())
  refuses.outcome .setMode .fill (.ok ())
  refuses.outcome .rename (.rename path) (root.renameTarget path)

/-- Filling the new file and renaming it puts it in its place, or it is still where it was made. -/
theorem settles_persist (h : scratch.Free root) (made : Node) (refuses : Refusals)
    (path text : String) (mode : Nat) :
    Settles scratch root made (scratch.persist refuses path text mode)
      ((fun place => root.put (file mode (.text text)) place) <$> persistPlace refuses path root) := by
  have hrename : Settles scratch root (file mode (.text text))
      (attempt refuses .rename (.rename path) fun tree => (scratch.moveTo path tree).map ((), ·))
      ((fun place => root.put (file mode (.text text)) place) <$>
        refuses.outcome .rename (.rename path) (root.renameTarget path)) := by
    unfold Settles
    rw [run_attempt, Refusals.outcome_map, Scratch.moveTo_put h, Refusals.outcome_map]
    cases refuses.outcome .rename (.rename path) (root.renameTarget path) with
    | error e => exact ⟨_, rfl⟩
    | ok place => exact ⟨made, rfl⟩
  -- Writing, bringing to the disk and setting the bits only work on the new file.
  unfold persistPlace
  simp only [map_bind]
  exact .cons (Scratch.put_put _ _) (.cons rfl (.cons (Scratch.put_put _ _) hrename))

end Persisting

/-! ## The replacement -/

namespace Node

/-- The permission bits of the new file and the place that it is put in, if no step fails. -/
def aim (root : Node) (refuses : Refusals) (path : String) :
    Except ReplaceError (Nat × List String) := do
  let old ← refuses.outcome .stat (.stat path) (root.stat path)
  refuses.outcome .create (.create (directoryOf path))
    (if root.hasDirectory (directoryOf path) then .ok () else .error .notFound)
  let place ← persistPlace refuses path root
  return (old.mode, place)

end Node

/-- What a computation did to the tree is undone when it fails. -/
theorem run_tryCatch {α : Type} (m : Filing α) (undo : Node → Node) (root : Node) :
    (tryCatch m fun e => do
      modify undo
      throw e : Filing α).run root =
      match m.run root with
      | (.error e, after) => (.error e, undo after)
      | (.ok a, after) => (.ok a, after) := by
  simp only [tryCatch, tryCatchThe, MonadExceptOf.tryCatch, ExceptT.tryCatch, ExceptT.run_mk,
    StateT.bind, bind]
  unfold ExceptT.run
  generalize m root = done
  obtain ⟨e | a, after⟩ := done <;> rfl

theorem run_replace_aim (refuses : Refusals) (path text : String) (root : Node) :
    (replace refuses path text).run root =
      match root.aim refuses path with
      | .error e => (.error e, root)
      | .ok (mode, place) => (.ok (), root.put (file mode (.text text)) place) := by
  -- Up to the making of the new file the tree stays, so a failure there needs no argument.
  unfold replace aim
  rw [run_attempt_bind, Refusals.outcome_map]
  cases refuses.outcome .stat (.stat path) (root.stat path) with
  | error e => rfl
  | ok old =>
    simp only [Except.map]
    rw [run_attempt_bind]
    rcases Scratch.make_cases (directoryOf path) root with
      ⟨hdirectory, scratch, hfree, hmake⟩ | ⟨hdirectory, hmake⟩
    · rw [hmake, hdirectory]
      unfold Refusals.outcome
      cases refuses .create with
      | some e => rfl
      | none =>
        simp only [Except.mapError]
        obtain ⟨left, hrun⟩ := settles_persist hfree (file 0o600 (.text "")) refuses path text old.mode
        change (tryCatch (scratch.persist refuses path text old.mode) fun e => do
          modify scratch.drop
          throw e : Filing Unit).run (scratch.put (file 0o600 (.text "")) root) = _
        -- What is left of a new file that cannot take its place is taken away.
        rw [run_tryCatch, hrun]
        cases persistPlace refuses path root with
        | error e =>
          simp only [Except.map, Functor.map]
          rw [Scratch.drop_put hfree]
          rfl
        | ok place => rfl
    · rw [hmake, hdirectory]
      unfold Refusals.outcome
      cases refuses .create <;> rfl

namespace Node

variable {refuses : Refusals} {root : Node} {path : String}

/-- **A replacement puts one file in one place.** -/
theorem replaceText_eq (root : Node) (path text : String) (refuses : Refusals) :
    root.replaceText path text refuses =
      (root.aim refuses path).map fun (mode, place) => root.put (file mode (.text text)) place := by
  unfold replaceText
  rw [run_replace_aim]
  cases root.aim refuses path <;> rfl

theorem bind_eq_ok {ε α β : Type} {x : Except ε α} {f : α → Except ε β} {b : β} :
    (x >>= f) = .ok b ↔ ∃ a, x = .ok a ∧ f a = .ok b := by
  cases x <;> simp [bind, Except.bind]

/-- Every step has to be admitted. -/
theorem aim_eq_ok {mode : Nat} {place : List String} :
    root.aim refuses path = .ok (mode, place) ↔
      (∀ step, refuses step = none) ∧ ∃ old, root.stat path = .ok old ∧ old.mode = mode ∧
        root.hasDirectory (directoryOf path) = true ∧ root.renameTarget path = .ok place := by
  unfold aim persistPlace
  simp only [bind_eq_ok, Refusals.outcome_eq_ok]
  constructor
  · rintro ⟨old, ⟨hstat, hold⟩, _, ⟨hcreate, hdirectory⟩, _, ⟨-, ⟨hwrite, -⟩, -, ⟨hsync, -⟩, -,
      ⟨hmode, -⟩, hrename, hplace⟩, haim⟩
    obtain ⟨rfl, rfl⟩ := Prod.mk.inj (Except.ok.inj haim)
    refine ⟨?_, old, hold, rfl, ?_, hplace⟩
    · intro step
      cases step with
      | stat => exact hstat
      | create => exact hcreate
      | write => exact hwrite
      | sync => exact hsync
      | setMode => exact hmode
      | rename => exact hrename
    · by_contra hnot
      rw [if_neg hnot] at hdirectory
      simp at hdirectory
  · rintro ⟨hsteps, old, hold, rfl, hdirectory, hplace⟩
    refine ⟨old, ⟨hsteps _, hold⟩, (), ⟨hsteps _, if_pos hdirectory⟩, place, ?_, rfl⟩
    exact ⟨(), ⟨hsteps _, trivial⟩, (), ⟨hsteps _, trivial⟩, (), ⟨hsteps _, trivial⟩, hsteps _, hplace⟩

theorem exists_of_replaceText {text : String} {after : Node}
    (h : root.replaceText path text refuses = .ok after) :
    ∃ old place, root.stat path = .ok old ∧ root.hasDirectory (directoryOf path) = true ∧
      root.renameTarget path = .ok place ∧ after = root.put (file old.mode (.text text)) place := by
  rw [replaceText_eq] at h
  cases haim : root.aim refuses path with
  | error e =>
    rw [haim] at h
    simp [Except.map] at h
  | ok aimed =>
    obtain ⟨mode, place⟩ := aimed
    rw [haim] at h
    obtain ⟨-, old, hold, rfl, hdirectory, hplace⟩ := aim_eq_ok.1 haim
    exact ⟨old, place, hold, hdirectory, hplace, (Except.ok.inj h).symm⟩

/-- **A replacement succeeds just when no step is refused and the tree admits it.** -/
theorem replaceText_eq_ok_iff {text : String} {after : Node} :
    root.replaceText path text refuses = .ok after ↔
      (∀ step, refuses step = none) ∧ root.replaceText path text = .ok after := by
  constructor
  · intro h
    have hrefuses : ∀ step, refuses step = none := by
      rw [replaceText_eq] at h
      cases haim : root.aim refuses path with
      | error e =>
        rw [haim] at h
        simp [Except.map] at h
      | ok aimed => exact (aim_eq_ok.1 haim).1
    rw [show refuses = Refusals.none from funext hrefuses] at h
    exact ⟨hrefuses, h⟩
  · rintro ⟨hrefuses, h⟩
    rw [show refuses = Refusals.none from funext hrefuses]
    exact h

end Node

/-- **A replacement that fails leaves the tree as it was**, at whatever step it fails. -/
theorem run_replace (refuses : Refusals) (path text : String) (root : Node) :
    (replace refuses path text).run root =
      match root.replaceText path text refuses with
      | .error e => (.error e, root)
      | .ok after => (.ok (), after) := by
  rw [run_replace_aim, replaceText_eq]
  cases root.aim refuses path <;> rfl

end PinnedImports.Storage

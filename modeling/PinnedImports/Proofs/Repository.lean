import Mathlib.Data.List.Basic
import Mathlib.Data.List.TakeWhile
import PinnedImports.Repository

/-!
# Keys of repositories

`IsKey` says which texts name a repository of each host. The key that is found in an import path is
such a text and the path begins with it (`isKey_of_ofImportPath?`). In the other direction a path
that is a key, or lies below one, has just this key (`ofImportPath?_of_isKey`), so a repository that
owns a path is the one that is found in it (`ofImportPath?_of_owns`). A path need not end behind its
key or go on with a slash: the key that is found in it owns the path exactly if the path is
`Hosted`.
-/

set_option autoImplicit false

namespace PinnedImports

theorem Text.after?_eq_some {start cs rest : List Char} :
    Text.after? start cs = some rest ↔ cs = start ++ rest := by
  rw [Text.after?, List.isPrefixOf?_eq_some_iff_append_eq, eq_comm]

theorem Text.before?_eq_some {ending cs front : List Char} :
    Text.before? ending cs = some front ↔ cs = front ++ ending := by
  rw [Text.before?, Option.map_eq_some_iff]
  simp only [List.isPrefixOf?_eq_some_iff_append_eq]
  constructor
  · rintro ⟨rest, hrest, rfl⟩
    rw [← List.reverse_reverse cs, ← hrest, List.reverse_append, List.reverse_reverse]
  · rintro rfl
    exact ⟨front.reverse, List.reverse_append.symm, List.reverse_reverse front⟩

/-- Nothing follows, or a slash does. -/
def AtBoundary (rest : List Char) : Prop := ∀ c ∈ rest.head?, c = '/'

/-- **A repository owns its key and what follows a slash behind it.** -/
theorem owns_iff {key path : String} :
    owns key path = true ↔ ∃ rest, path.toList = key.toList ++ rest ∧ AtBoundary rest := by
  rw [owns, packageWithin?]
  constructor
  · intro h
    split at h
    · rename_i hafter
      exact ⟨[], Text.after?_eq_some.1 hafter, by simp [AtBoundary]⟩
    · rename_i rest hafter
      exact ⟨'/' :: rest, Text.after?_eq_some.1 hafter, by simp [AtBoundary]⟩
    · simp at h
  · rintro ⟨rest, hpath, hrest⟩
    rw [Text.after?_eq_some.2 hpath]
    cases rest with
    | nil => rfl
    | cons c rest =>
      obtain rfl : c = '/' := hrest c rfl
      rfl

namespace Repository

/-! ## Names -/

/-- One or more characters that satisfy `p`. -/
def IsName (p : Char → Bool) (name : List Char) : Prop := name ≠ [] ∧ ∀ c ∈ name, p c = true

/-- The name at the front of a text is as long as it can be. -/
theorem nameOf?_eq_some {p : Char → Bool} {cs name : List Char} :
    nameOf? p cs = some name ↔
      IsName p name ∧ ∃ rest, cs = name ++ rest ∧ ∀ c ∈ rest.head?, p c = false := by
  have hname : nameOf? p cs = some name ↔ cs.takeWhile p = name ∧ name ≠ [] := by
    rw [nameOf?]
    split
    · rename_i hnil
      simp [hnil, eq_comm]
    · rename_i hne
      constructor
      · intro h
        rw [Option.some.injEq] at h
        exact ⟨h, fun hnil => hne (h.trans hnil)⟩
      · exact fun h => congrArg some h.1
  rw [hname]
  constructor
  · rintro ⟨rfl, hne⟩
    refine ⟨⟨hne, fun c hc => List.mem_takeWhile_imp hc⟩, cs.dropWhile p, ?_, fun c hc => ?_⟩
    · rw [List.takeWhile_append_dropWhile]
    · have hhead := List.head?_dropWhile_not p cs
      rw [hc] at hhead
      exact hhead
  · rintro ⟨⟨hne, hall⟩, rest, rfl, hrest⟩
    refine ⟨?_, hne⟩
    have hstop : rest.takeWhile p = [] := by
      cases rest with
      | nil => rfl
      | cons c rest => rw [List.takeWhile_cons, hrest c rfl]; rfl
    rw [List.takeWhile_append_of_pos hall, hstop, List.append_nil]

/-- A name that a slash or nothing follows is found as a whole. -/
theorem IsName.nameOf? {p : Char → Bool} {name rest : List Char} (h : IsName p name)
    (hslash : p '/' = false) (hrest : AtBoundary rest) :
    Repository.nameOf? p (name ++ rest) = some name := by
  refine nameOf?_eq_some.2 ⟨h, rest, rfl, fun c hc => ?_⟩
  rw [hrest c hc]
  exact hslash

theorem after?_append (start rest : List Char) : Text.after? start (start ++ rest) = some rest :=
  Text.after?_eq_some.2 rfl

/-! ## Keys -/

/-- The names of repositories: an owner and a name on GitHub, a project on Google Code with or
without a dotted ending, and a name under the registry's own namespace. -/
inductive IsKey : Host → List Char → Prop
  | gitHub {owner name : List Char} : IsName isGitHubNameChar owner → IsName isGitHubNameChar name →
      IsKey .gitHub ("github.com/".toList ++ (owner ++ '/' :: name))
  | project {project : List Char} : IsName isProjectChar project →
      IsKey .googleCode ("code.google.com/p/".toList ++ project)
  | part {project ending : List Char} : IsName isProjectChar project →
      IsName Char.isAlphanum ending →
      IsKey .googleCode ("code.google.com/p/".toList ++ (project ++ '.' :: ending))
  | registry {name : List Char} : IsName Char.isAlphanum name →
      IsKey .registry (registryNamespace.toList ++ name)

/-! ### What is found is a key -/

theorem isKey_of_gitHubKey? {path key : List Char} (h : gitHubKey? path = some key) :
    IsKey .gitHub key ∧ key <+: path := by
  simp only [gitHubKey?, Option.bind_eq_bind, Option.bind_eq_some_iff, Option.pure_def,
    Option.some.injEq] at h
  obtain ⟨behindHost, hhost, owner, hfirst, behindSlash, hslash, name, hsecond, rfl⟩ := h
  obtain ⟨howner, rest, rfl, -⟩ := nameOf?_eq_some.1 hfirst
  rw [List.drop_left] at hslash
  obtain ⟨hname, last, rfl, -⟩ := nameOf?_eq_some.1 hsecond
  rw [Text.after?_eq_some.1 hhost, Text.after?_eq_some.1 hslash]
  refine ⟨?_, last, by simp⟩
  simpa using IsKey.gitHub howner hname

theorem dottedEnding_cases (cs : List Char) :
    dottedEnding cs = [] ∨ ∃ ending rest, dottedEnding cs = '.' :: ending ∧
      IsName Char.isAlphanum ending ∧ cs = '.' :: (ending ++ rest) := by
  unfold dottedEnding
  split
  · rename_i rest
    split
    · exact .inl rfl
    · rename_i hne
      refine .inr ⟨_, rest.dropWhile Char.isAlphanum, rfl,
        ⟨hne, fun c hc => List.mem_takeWhile_imp hc⟩, ?_⟩
      rw [List.takeWhile_append_dropWhile]
  · exact .inl rfl

theorem isKey_of_googleCodeKey? {path key : List Char} (h : googleCodeKey? path = some key) :
    IsKey .googleCode key ∧ key <+: path := by
  simp only [googleCodeKey?, Option.bind_eq_bind, Option.bind_eq_some_iff, Option.pure_def,
    Option.some.injEq] at h
  obtain ⟨behindHost, hhost, project, hfirst, rfl⟩ := h
  obtain ⟨hproject, rest, rfl, -⟩ := nameOf?_eq_some.1 hfirst
  rw [Text.after?_eq_some.1 hhost, List.drop_left, List.append_assoc]
  rcases dottedEnding_cases rest with hnone | ⟨ending, last, heq, hending, hrest⟩
  · rw [hnone, List.append_nil]
    exact ⟨.project hproject, rest, by simp⟩
  · rw [heq, hrest]
    exact ⟨.part hproject hending, last, by simp⟩

theorem isKey_of_registryKey? {path key : List Char} (h : registryKey? path = some key) :
    IsKey .registry key ∧ key <+: path := by
  simp only [registryKey?, Option.bind_eq_bind, Option.bind_eq_some_iff, Option.pure_def,
    Option.some.injEq] at h
  obtain ⟨behindHost, hhost, name, hfirst, rfl⟩ := h
  obtain ⟨hname, rest, rfl, -⟩ := nameOf?_eq_some.1 hfirst
  rw [Text.after?_eq_some.1 hhost]
  exact ⟨.registry hname, rest, by simp⟩

/-- **What is found in a path is a key, and the path begins with it.** -/
theorem isKey_of_ofImportPath? {path : String} {repository : Repository}
    (h : ofImportPath? path = some repository) :
    IsKey repository.host repository.key.toList ∧ repository.key.toList <+: path.toList := by
  unfold ofImportPath? at h
  simp only at h
  split at h
  · rename_i key hkey
    obtain rfl := Option.some.inj h
    rw [String.toList_ofList]
    exact isKey_of_gitHubKey? hkey
  split at h
  · rename_i key hkey
    obtain rfl := Option.some.inj h
    rw [String.toList_ofList]
    exact isKey_of_googleCodeKey? hkey
  · obtain ⟨key, hkey, rfl⟩ := Option.map_eq_some_iff.1 h
    rw [String.toList_ofList]
    exact isKey_of_registryKey? hkey

/-! ### What lies below a key is found there -/

theorem gitHubKey?_of_isKey {key rest : List Char} (h : IsKey .gitHub key)
    (hrest : AtBoundary rest) : gitHubKey? (key ++ rest) = some key := by
  cases h with
  | @gitHub owner name howner hname =>
    have hslash : AtBoundary ('/' :: (name ++ rest)) := by simp [AtBoundary]
    have hbehind : Text.after? ['/'] ('/' :: (name ++ rest)) = some (name ++ rest) :=
      after?_append ['/'] (name ++ rest)
    have hpath : "github.com/".toList ++ (owner ++ '/' :: name) ++ rest =
        "github.com/".toList ++ (owner ++ '/' :: (name ++ rest)) := by simp
    simp only [gitHubKey?, hpath, after?_append, howner.nameOf? rfl hslash, List.drop_left, hbehind,
      hname.nameOf? rfl hrest, Option.bind_eq_bind, Option.bind_some, Option.pure_def]
    simp

theorem dottedEnding_of_atBoundary {rest : List Char} (h : AtBoundary rest) :
    dottedEnding rest = [] := by
  cases rest with
  | nil => rfl
  | cons c rest =>
    obtain rfl : c = '/' := h c rfl
    rfl

theorem dottedEnding_of_isName {ending rest : List Char} (h : IsName Char.isAlphanum ending)
    (hrest : AtBoundary rest) : dottedEnding ('.' :: (ending ++ rest)) = '.' :: ending := by
  have hname := h.nameOf? (by decide) hrest
  rw [Repository.nameOf?] at hname
  rw [dottedEnding]
  split at hname
  · simp at hname
  · rename_i hne
    rw [Option.some.injEq] at hname
    simp only [hname]

theorem googleCodeKey?_of_isKey {key rest : List Char} (h : IsKey .googleCode key)
    (hrest : AtBoundary rest) : googleCodeKey? (key ++ rest) = some key := by
  cases h with
  | @project project hproject =>
    rw [List.append_assoc]
    simp only [googleCodeKey?, after?_append, hproject.nameOf? rfl hrest, List.drop_left,
      dottedEnding_of_atBoundary hrest, Option.bind_eq_bind, Option.bind_some, Option.pure_def,
      List.append_nil]
  | @part project ending hproject hending =>
    -- The dot is no character of a project, so the project ends before it.
    have hname : Repository.nameOf? isProjectChar (project ++ '.' :: (ending ++ rest)) =
        some project :=
      nameOf?_eq_some.2 ⟨hproject, _, rfl, by
        intro c hc
        obtain rfl : c = '.' := by simpa [eq_comm] using hc
        rfl⟩
    have hpath : "code.google.com/p/".toList ++ (project ++ '.' :: ending) ++ rest =
        "code.google.com/p/".toList ++ (project ++ '.' :: (ending ++ rest)) := by simp
    simp only [googleCodeKey?, hpath, after?_append, hname, List.drop_left,
      dottedEnding_of_isName hending hrest, Option.bind_eq_bind, Option.bind_some, Option.pure_def,
      List.append_assoc]

theorem registryKey?_of_isKey {key rest : List Char} (h : IsKey .registry key)
    (hrest : AtBoundary rest) : registryKey? (key ++ rest) = some key := by
  cases h with
  | @registry name hname =>
    rw [List.append_assoc]
    simp only [registryKey?, after?_append, hname.nameOf? (by decide) hrest, Option.bind_eq_bind,
      Option.bind_some, Option.pure_def]

/-- The names of the three hosts differ, so a key of one host is not mistaken for one of
another. -/
theorem otherKeys_of_isKey {host : Host} {key : List Char} (h : IsKey host key)
    (rest : List Char) :
    (host ≠ .gitHub → gitHubKey? (key ++ rest) = none) ∧
      (host = .registry → googleCodeKey? (key ++ rest) = none) := by
  cases h with
  | gitHub => exact ⟨fun hne => absurd rfl hne, fun heq => by simp at heq⟩
  | project => exact ⟨fun _ => rfl, fun heq => by simp at heq⟩
  | part => exact ⟨fun _ => rfl, fun heq => by simp at heq⟩
  | registry => exact ⟨fun _ => rfl, fun _ => rfl⟩

/-- **A path that is a key or lies below one has this key.** -/
theorem ofImportPath?_of_isKey {host : Host} {path : String} {key rest : List Char}
    (h : IsKey host key) (hpath : path.toList = key ++ rest) (hrest : AtBoundary rest) :
    ofImportPath? path = some ⟨host, String.ofList key⟩ := by
  obtain ⟨hgitHub, hgoogleCode⟩ := otherKeys_of_isKey h rest
  rw [ofImportPath?, hpath]
  cases host with
  | gitHub => simp only [gitHubKey?_of_isKey h hrest]
  | googleCode => simp only [hgitHub (by simp), googleCodeKey?_of_isKey h hrest]
  | registry =>
    simp only [hgitHub (by simp), hgoogleCode rfl, registryKey?_of_isKey h hrest, Option.map_some]

/-! ## Ownership -/

/-- **The repository that owns a path is the one that is found in it.** -/
theorem ofImportPath?_of_owns {path other : String} {repository : Repository}
    (h : ofImportPath? other = some repository) (howns : owns repository.key path = true) :
    ofImportPath? path = some repository := by
  obtain ⟨rest, hpath, hrest⟩ := owns_iff.1 howns
  rw [ofImportPath?_of_isKey (isKey_of_ofImportPath? h).1 hpath hrest, String.ofList_toList]

/-- The path names a repository, or a package below one. -/
def Hosted (path : String) : Prop :=
  ∃ host key, IsKey host key ∧ owns (String.ofList key) path = true

/-- **The key that is found in a path owns it exactly if the path is hosted.** Otherwise the path
goes on with other characters behind the key, and no repository owns it. -/
theorem owns_key_iff {path : String} {repository : Repository}
    (h : ofImportPath? path = some repository) :
    owns repository.key path = true ↔ Hosted path := by
  constructor
  · intro howns
    refine ⟨repository.host, repository.key.toList, (isKey_of_ofImportPath? h).1, ?_⟩
    rw [String.ofList_toList]
    exact howns
  · rintro ⟨host, key, hkey, howns⟩
    obtain ⟨rest, hpath, hrest⟩ := owns_iff.1 howns
    rw [String.toList_ofList] at hpath
    rw [ofImportPath?_of_isKey hkey hpath hrest, Option.some.injEq] at h
    rw [← h]
    exact howns

/-- A key of the registry's host begins with the namespace, and no other key does. -/
theorem isCanonical_iff {path : String} {repository : Repository}
    (h : ofImportPath? path = some repository) :
    repository.isCanonical = true ↔ registryNamespace.toList <+: repository.key.toList := by
  obtain ⟨hkey, -⟩ := isKey_of_ofImportPath? h
  obtain ⟨host, key⟩ := repository
  simp only at hkey
  generalize key.toList = cs at hkey
  cases hkey with
  | gitHub => simp [isCanonical, registryNamespace]
  | project => simp [isCanonical, registryNamespace]
  | part => simp [isCanonical, registryNamespace]
  | registry => simp [isCanonical]

end Repository

end PinnedImports

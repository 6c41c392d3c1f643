import PinnedImports.Proofs.Build.Header
import PinnedImports.Proofs.Repository

/-!
# Endings of file names

A file name is restricted by the parts behind its first underscore, without the endings `.go` and
`_test`. Of these only the last two count: an operating system before an architecture restricts
together with it, any other known tag at the end restricts alone, and a name that does not end in a
tag (`EndsInTag`) is not restricted (`allowsFileName_endings`).
-/

set_option autoImplicit false

namespace PinnedImports.Build

open Text

/-- The tags that a file name may end in. -/
def endingTags : List String := operatingSystems ++ architectures

/-- The name ends in an underscore and a tag, up to the endings `_test` and `.go`. -/
def EndsInTag (name : String) : Prop :=
  ∃ stem, ∃ tag ∈ endingTags, ∃ test ∈ ["", "_test"], ∃ go ∈ ["", ".go"],
    name = stem ++ "_" ++ tag ++ test ++ go

theorem not_mem_of_mem_endingTags {tag : String} (h : tag ∈ endingTags) : '_' ∉ tag.toList := by
  have hall : ∀ tag ∈ endingTags, '_' ∉ tag.toList := by decide
  exact hall tag h

theorem ne_test_of_mem_endingTags {tag : String} (h : tag ∈ endingTags) : tag ≠ "test" := by
  have hall : ∀ tag ∈ endingTags, tag ≠ "test" := by decide
  exact hall tag h

/-! ## The parts of a stem -/

/-- The parts of a stem behind its first underscore, last part first. -/
def partsBehind (stem : List Char) : List String :=
  ((split (· == '_') stem).drop 1).reverse.map String.ofList

theorem partsBehind_of_not_mem {stem : List Char} (h : '_' ∉ stem) : partsBehind stem = [] := by
  rw [partsBehind, split_of_not_mem h]
  rfl

/-- A part behind an underscore comes before the parts of the stem in front of it. -/
theorem partsBehind_append {part : List Char} (h : '_' ∉ part) (stem : List Char) :
    partsBehind (stem ++ '_' :: part) = String.ofList part :: partsBehind stem := by
  have hsplit : split (· == '_') (stem ++ '_' :: part) = split (· == '_') stem ++ [part] := by
    rw [← split_of_not_mem h]
    simp only [split_eq_splitOnP]
    exact List.splitOnP_append_cons stem part (beq_self_eq_true '_')
  have hne : 1 ≤ (split (· == '_') stem).length :=
    List.length_pos_iff.2 (split_ne_nil (· == '_') stem)
  rw [partsBehind, hsplit, List.drop_append_of_le_length hne, List.reverse_append]
  rfl

/-- A stem either is one part or ends in an underscore and a part. -/
theorem exists_last_part (stem : List Char) :
    '_' ∉ stem ∨ ∃ front part, stem = front ++ '_' :: part ∧ '_' ∉ part := by
  by_cases h : '_' ∈ stem
  · obtain ⟨part, front, hreverse, hpart⟩ := List.eq_append_cons_of_mem (List.mem_reverse.2 h)
    refine .inr ⟨front.reverse, part.reverse, ?_, fun hmem => hpart (List.mem_reverse.1 hmem)⟩
    rw [← List.reverse_reverse stem, hreverse]
    simp
  · exact .inl h

/-- The last part of a stem stands at its end. -/
theorem eq_append_of_partsBehind {stem : List Char} {last : String} {before : List String}
    (h : partsBehind stem = last :: before) :
    ∃ front, stem = front ++ '_' :: last.toList ∧ partsBehind front = before := by
  rcases exists_last_part stem with hnone | ⟨front, part, rfl, hpart⟩
  · rw [partsBehind_of_not_mem hnone] at h
    simp at h
  · rw [partsBehind_append hpart, List.cons.injEq] at h
    obtain ⟨rfl, hbefore⟩ := h
    exact ⟨front, by rw [String.toList_ofList], hbefore⟩

/-! ## The stem of a name -/

/-- A text is what stands before an ending, or the text if it does not end so, and the rest. -/
theorem exists_ending (ending cs : List Char) :
    ∃ rest ∈ [[], ending], cs = (before? ending cs).getD cs ++ rest := by
  cases h : before? ending cs with
  | none => exact ⟨[], by simp, by simp⟩
  | some front => exact ⟨ending, by simp, before?_eq_some.1 h⟩

theorem before?_eq_none {ending cs : List Char} (h : ∀ front, cs ≠ front ++ ending) :
    before? ending cs = none := by
  rw [Option.eq_none_iff_forall_ne_some]
  exact fun front hfront => h front (before?_eq_some.1 hfront)

/-- Without the ending `.go` and then the ending `_test`, a name is its stem. -/
theorem exists_stem (name : String) :
    ∃ stem, Platform.restrictingParts name = partsBehind stem ∧
      ∃ test ∈ ["", "_test"], ∃ go ∈ ["", ".go"], name = String.ofList stem ++ test ++ go := by
  obtain ⟨go, hgo, hname⟩ := exists_ending ".go".toList name.toList
  obtain ⟨test, htest, hfront⟩ :=
    exists_ending "_test".toList ((before? ".go".toList name.toList).getD name.toList)
  refine ⟨_, rfl, String.ofList test, ?_, String.ofList go, ?_, ?_⟩
  · exact List.mem_map_of_mem (f := String.ofList) htest
  · exact List.mem_map_of_mem (f := String.ofList) hgo
  · rw [← String.ofList_append, ← hfront, ← String.ofList_append, ← hname, String.ofList_toList]

/-- The stem of a name that does not end in `_test.go`. -/
theorem restrictingParts_go {stem : String} (h : ∀ front, stem ≠ front ++ "_test") :
    Platform.restrictingParts (stem ++ ".go") = partsBehind stem.toList := by
  have hgo : before? ".go".toList (stem ++ ".go").toList = some stem.toList :=
    before?_eq_some.2 String.toList_append
  have htest : before? "_test".toList stem.toList = none := by
    refine before?_eq_none fun front hfront => h (String.ofList front) ?_
    exact String.toList_inj.1 (by simpa using hfront)
  rw [Platform.restrictingParts, hgo, Option.getD_some, htest]
  rfl

/-- The stem of a name that ends in `_test.go`. -/
theorem restrictingParts_test (stem : String) :
    Platform.restrictingParts (stem ++ "_test.go") = partsBehind stem.toList := by
  have hgo : before? ".go".toList (stem ++ "_test.go").toList =
      some (stem.toList ++ "_test".toList) := by
    rw [before?_eq_some, String.toList_append, List.append_assoc]
    rfl
  have htest : before? "_test".toList (stem.toList ++ "_test".toList) = some stem.toList :=
    before?_eq_some.2 rfl
  rw [Platform.restrictingParts, hgo, Option.getD_some, htest]
  rfl

theorem toList_append_part (stem part : String) :
    (stem ++ "_" ++ part).toList = stem.toList ++ '_' :: part.toList := by
  simp [String.toList_append]

/-- The parts of a name that ends in a tag. -/
theorem restrictingParts_tag (stem : String) {tag : String} (h : tag ∈ endingTags) :
    Platform.restrictingParts (stem ++ "_" ++ tag ++ ".go") = tag :: partsBehind stem.toList := by
  have hparts := partsBehind_append (not_mem_of_mem_endingTags h) stem.toList
  rw [String.ofList_toList] at hparts
  rw [restrictingParts_go, toList_append_part, hparts]
  -- The last part of a stem in `_test` would be `test`, which is no tag.
  intro front hfront
  have hnone : '_' ∉ "test".toList := by decide
  have htest := partsBehind_append hnone front.toList
  have hlists : stem.toList ++ '_' :: tag.toList = front.toList ++ '_' :: "test".toList := by
    rw [← toList_append_part, hfront, String.toList_append]
    rfl
  rw [hlists, htest, String.ofList_toList, List.cons.injEq] at hparts
  exact ne_test_of_mem_endingTags h hparts.1.symm

/-! ## What the parts restrict -/

namespace Platform

variable (p : Platform) {last : String} {before : List String}

/-- An operating system before an architecture restricts together with it. -/
theorem allowsParts_pair {os arch : String} (hos : os ∈ operatingSystems)
    (harch : arch ∈ architectures) (before : List String) :
    p.allowsParts (arch :: os :: before) = (p.holds os && p.holds arch) := by
  have hpair : (operatingSystems.contains os && architectures.contains arch) = true := by
    rw [List.contains_iff_mem.2 hos, List.contains_iff_mem.2 harch]
    rfl
  rw [allowsParts, if_pos hpair]

/-- A tag that is not an architecture behind an operating system restricts alone. -/
theorem allowsParts_single (hlast : last ∈ endingTags)
    (h : ∀ os ∈ before.head?, ¬ (os ∈ operatingSystems ∧ last ∈ architectures)) :
    p.allowsParts (last :: before) = p.holds last := by
  have hknown : (operatingSystems.contains last || architectures.contains last) = true := by
    simpa [endingTags] using hlast
  cases before with
  | nil => rw [allowsParts, if_pos hknown]
  | cons os before =>
    have hpair : ¬ (operatingSystems.contains os && architectures.contains last) = true := by
      simpa using h os rfl
    rw [allowsParts, if_neg hpair, if_pos hknown]

/-- Any other part does not restrict. -/
theorem allowsParts_other (hlast : last ∉ endingTags) (before : List String) :
    p.allowsParts (last :: before) = true := by
  obtain ⟨hos, harch⟩ := not_or.1 (mt List.mem_append.2 hlast)
  have hunknown : ¬ (operatingSystems.contains last || architectures.contains last) = true := by
    simp [hos, harch]
  cases before with
  | nil => rw [allowsParts, if_neg hunknown]
  | cons os before =>
    have hpair : ¬ (operatingSystems.contains os && architectures.contains last) = true := by
      simp [harch]
    rw [allowsParts, if_neg hpair, if_neg hunknown]

/-- **A name that does not end in a tag is accepted.** -/
theorem allowsFileName_of_not_endsInTag {name : String} (h : ¬ EndsInTag name) :
    p.allowsFileName name = true := by
  obtain ⟨stem, hparts, test, htest, go, hgo, rfl⟩ := exists_stem name
  rw [allowsFileName, hparts]
  cases hlist : partsBehind stem with
  | nil => rfl
  | cons last before =>
    apply allowsParts_other
    intro hlast
    obtain ⟨front, hstem, -⟩ := eq_append_of_partsBehind hlist
    refine h ⟨String.ofList front, last, hlast, test, htest, go, hgo, ?_⟩
    rw [← String.ofList_toList (s := String.ofList front ++ "_" ++ last), toList_append_part,
      String.toList_ofList, ← hstem]

end Platform

/-- **The endings of file names.** On every platform and for every stem, a name that ends in an
operating system and an architecture is accepted exactly if both tags hold, one that ends otherwise in
a tag exactly if it holds, and every other name is accepted. The ending `_test` changes nothing. -/
theorem allowsFileName_endings (p : Platform) :
    (∀ stem, ∀ os ∈ operatingSystems, ∀ arch ∈ architectures,
      (p.allowsFileName (stem ++ "_" ++ os ++ "_" ++ arch ++ ".go") = true ↔
        p.holds os = true ∧ p.holds arch = true)) ∧
    (∀ stem, ∀ tag ∈ endingTags,
      ¬ (tag ∈ architectures ∧ ∃ front, ∃ os ∈ operatingSystems, stem = front ++ "_" ++ os) →
        (p.allowsFileName (stem ++ "_" ++ tag ++ ".go") = true ↔ p.holds tag = true)) ∧
    (∀ name, ¬ EndsInTag name → p.allowsFileName name = true) ∧
    (∀ stem, (∀ front, stem ++ ".go" ≠ front ++ "_test.go") →
      p.allowsFileName (stem ++ "_test.go") = p.allowsFileName (stem ++ ".go")) := by
  refine ⟨fun stem os hos arch harch => ?_, fun stem tag htag hsingle => ?_,
    fun name => p.allowsFileName_of_not_endsInTag, fun stem hstem => ?_⟩
  · have hparts := partsBehind_append (not_mem_of_mem_endingTags (List.mem_append_left _ hos))
      stem.toList
    rw [Platform.allowsFileName, restrictingParts_tag _ (List.mem_append_right _ harch),
      toList_append_part, hparts, String.ofList_toList, p.allowsParts_pair hos harch,
      Bool.and_eq_true]
  · rw [Platform.allowsFileName, restrictingParts_tag _ htag, p.allowsParts_single htag]
    rintro os hhead ⟨hos, harch⟩
    cases hlist : partsBehind stem.toList with
    | nil => simp [hlist] at hhead
    | cons last before =>
      rw [hlist, List.head?_cons, Option.mem_some_iff] at hhead
      subst hhead
      obtain ⟨front, hfront, -⟩ := eq_append_of_partsBehind hlist
      refine hsingle ⟨harch, String.ofList front, last, hos, ?_⟩
      rw [← String.toList_inj, toList_append_part, String.toList_ofList, hfront]
  · have hplain : ∀ front, stem ≠ front ++ "_test" := by
      rintro front rfl
      exact hstem front (by rw [String.append_assoc]; rfl)
    rw [Platform.allowsFileName, Platform.allowsFileName, restrictingParts_test,
      restrictingParts_go hplain]

/-- A file for one architecture whose stem is the name of an operating system, and a file that is
only named after one. -/
theorem linux_arm64_by_architecture :
    (∀ front, "linux_arm64" ++ ".go" ≠ front ++ "_test.go") ∧
      ¬ ("arm64" ∈ architectures ∧
        ∃ front, ∃ os ∈ operatingSystems, "linux" = front ++ "_" ++ os) ∧
      ¬ EndsInTag "linux.go" ∧
      (⟨"windows", "arm64", []⟩ : Platform).allowsFileName "linux_arm64_test.go" = true ∧
      (⟨"windows", "arm64", []⟩ : Platform).allowsFileName "a.b__linux_arm64.go" = false ∧
      (⟨"windows", "arm64", []⟩ : Platform).allowsFileName "linux.go" = true := by
  have htest : ∀ front, "linux_arm64" ++ ".go" ≠ front ++ "_test.go" := by
    intro front hname
    have hlists := congrArg (fun name => name.toList.reverse) hname
    simp [String.toList_append] at hlists
  have hsingle : ¬ ("arm64" ∈ architectures ∧
      ∃ front, ∃ os ∈ operatingSystems, "linux" = front ++ "_" ++ os) := by
    rintro ⟨-, front, os, -, hstem⟩
    have hmem : '_' ∈ "linux".toList := by
      rw [hstem, toList_append_part]
      simp
    exact absurd hmem (by decide)
  have htag : ¬ EndsInTag "linux.go" := by
    rintro ⟨stem, tag, -, test, -, go, -, hname⟩
    have hmem : '_' ∈ "linux.go".toList := by
      rw [hname, String.toList_append, String.toList_append, toList_append_part]
      simp
    exact absurd hmem (by decide)
  obtain ⟨hpair, hone, hother, htested⟩ := allowsFileName_endings ⟨"windows", "arm64", []⟩
  refine ⟨htest, hsingle, htag, ?_, ?_, hother _ htag⟩
  · have hname : "linux_arm64_test.go" = "linux_arm64" ++ "_test.go" := rfl
    rw [hname, htested "linux_arm64" htest]
    exact (hone "linux" "arm64" (by decide) hsingle).2 (by decide)
  · rw [Bool.eq_false_iff]
    intro hallowed
    have htags := (hpair "a.b_" "linux" (by decide) "arm64" (by decide)).1 hallowed
    exact absurd htags.1 (by decide)

end PinnedImports.Build

import Mathlib.Data.List.Forall2
import PinnedImports.Proofs.Json.Printing
import PinnedImports.Registry.Wire

/-!
# Records by the names of their members

An object gives a record if it has at least the members that differ from their defaults, each known
one at most once and with the record's value (`Gives`). Their order and the members of other names do
not matter, and neither do blanks and escapes: in every text the object is read as the record
(`readRecord_reads`), and a response of such objects as the list of the records
(`decodeRecords_gives`).
-/

set_option autoImplicit false

namespace PinnedImports.Registry

open Json (Datum Reads ReadsMember ReadsAll Reader)

/-- The version is one of 64 bits. -/
def Record.Fits (r : Record) : Prop := -2 ^ 63 ≤ r.version ∧ r.version < 2 ^ 63

/-! ## Members -/

namespace Member

/-- The value of a record's member. -/
def value (r : Record) : Member → Datum
  | path => .string r.path
  | registryPath => .string r.registryPath
  | version => .integer r.version
  | revision => .string r.revision
  | allowsUnpinned => .bool r.allowsUnpinned
  | error => .string r.error
  | documentationPrefix => .string r.documentationPrefix

/-- The second record with a member of the first one. -/
def copy (source : Record) (m : Member) (r : Record) : Record :=
  match m with
  | path => { r with path := source.path }
  | registryPath => { r with registryPath := source.registryPath }
  | version => { r with version := source.version }
  | revision => { r with revision := source.revision }
  | allowsUnpinned => { r with allowsUnpinned := source.allowsUnpinned }
  | error => { r with error := source.error }
  | documentationPrefix => { r with documentationPrefix := source.documentationPrefix }

theorem value_copy (source : Record) (m other : Member) (r : Record) :
    other.value (m.copy source r) = if other = m then other.value source else other.value r := by
  cases m <;> cases other <;> rfl

/-- Records with the same members are the same. -/
theorem ext_value {r s : Record} (h : ∀ m : Member, m.value r = m.value s) : r = s := by
  obtain ⟨path, registryPath, version, revision, allowsUnpinned, error, documentationPrefix⟩ := r
  have hpath := h .path
  have hregistryPath := h .registryPath
  have hversion := h .version
  have hrevision := h .revision
  have hallowsUnpinned := h .allowsUnpinned
  have herror := h .error
  have hdocumentationPrefix := h .documentationPrefix
  simp only [value, Datum.string.injEq, Datum.integer.injEq, Datum.bool.injEq] at *
  subst hpath hregistryPath hversion hrevision hallowsUnpinned herror hdocumentationPrefix
  rfl

theorem name_injective {m other : Member} (h : m.name = other.name) : m = other := by
  revert h
  cases m <;> cases other <;> decide

/-- In every text the value of a member is read into the record. -/
theorem read_reads {source : Record} (hfits : source.Fits) (m : Member) (r : Record) :
    Reads (m.read r) (m.value source) (m.copy source r) := by
  intro before text rest hbefore htext hrest
  have hversion := Json.int64_reads (n := source.version) hfits.1 hfits.2
  cases m
  case version =>
    rw [read]
    simp only [hversion before text rest hbefore htext hrest]
    rfl
  case allowsUnpinned =>
    rw [read]
    simp only [Json.bool_reads _ before text rest hbefore htext hrest]
    rfl
  all_goals
    rw [read]
    simp only [Json.string_reads _ before text rest hbefore htext hrest]
    rfl

end Member

/-! ## Objects -/

/-- The members give the record: known ones with its values, each at most once, and at least those
that differ from their defaults. Members of other names may stand among them. -/
structure Gives (r : Record) (members : List (String × Datum)) : Prop where
  values : ∀ (m : Member) v, (m.name, v) ∈ members → v = m.value r
  once : members.Pairwise fun first second =>
    ∀ m : Member, ¬ (first.1 = m.name ∧ second.1 = m.name)
  defaults : ∀ m : Member, m.value r ≠ m.value { } → ∃ v, (m.name, v) ∈ members

theorem readMember_known {source : Record} (hfits : source.Fits) {d : Draft} {m : Member}
    (hseen : m ∉ d.seen) :
    ReadsMember readMember d m.name (m.value source) ⟨m.copy source d.record, m :: d.seen⟩ := by
  intro behind between text rest hbehind hbetween htext hrest
  have hfind : Member.all.find? (fun other => other.name == m.name) = some m := by
    cases m <;> rfl
  have hnot : ¬ d.seen.contains m = true := by simpa using hseen
  rw [readMember, hfind]
  simp only [if_neg hnot, Json.expect_append hbehind (c := ':') rfl, bind, Except.bind,
    m.read_reads hfits d.record between text rest hbetween htext hrest]
  rfl

/-- A member of another name is passed over. -/
theorem readMember_unknown {name : String} (h : ∀ m : Member, name ≠ m.name) (d : Draft)
    (v : Datum) : ReadsMember readMember d name v d := by
  intro behind between text rest hbehind hbetween htext hrest
  have hfind : Member.all.find? (fun other => other.name == name) = none := by
    rw [List.find?_eq_none]
    intro m _
    rw [beq_iff_eq]
    exact fun heq => h m heq.symm
  rw [readMember, hfind]
  simp only [Json.expect_append hbehind (c := ':') rfl, bind, Except.bind,
    Json.skipValue_reads v between text rest hbetween htext hrest]
  rfl

/-- A draft of a record: the members that have been seen are its own, the other ones the defaults. -/
def Draft.Of (source : Record) (d : Draft) : Prop :=
  ∀ m : Member, m.value d.record = if m ∈ d.seen then m.value source else m.value { }

theorem Draft.Of.copy {source : Record} {d : Draft} (h : d.Of source) (m : Member) :
    Draft.Of source ⟨m.copy source d.record, m :: d.seen⟩ := by
  intro other
  simp only [Member.value_copy, List.mem_cons]
  by_cases heq : other = m
  · rw [if_pos heq, if_pos (.inl heq)]
  · rw [if_neg heq, h other]
    simp only [heq, false_or]

/-- The members of an object are read one after the other into a draft of the record. -/
theorem exists_readsAll {source : Record} (hfits : source.Fits) {members : List (String × Datum)}
    (hvalues : ∀ (m : Member) v, (m.name, v) ∈ members → v = m.value source)
    (honce : members.Pairwise fun first second =>
      ∀ m : Member, ¬ (first.1 = m.name ∧ second.1 = m.name))
    {d : Draft} (hd : d.Of source) (hnew : ∀ m ∈ d.seen, ∀ v, (m.name, v) ∉ members) :
    ∃ last : Draft, ReadsAll readMember d members last ∧ last.Of source ∧
      ∀ m : Member, m ∈ last.seen ↔ m ∈ d.seen ∨ ∃ v, (m.name, v) ∈ members := by
  -- The induction is on the members still to be read; no known one of them has been seen before.
  induction members generalizing d with
  | nil => exact ⟨d, .nil d, hd, by simp⟩
  | cons entry members ih =>
    obtain ⟨name, v⟩ := entry
    obtain ⟨hfirst, hothers⟩ := List.pairwise_cons.1 honce
    have hvalues' : ∀ (m : Member) v, (m.name, v) ∈ members → v = m.value source :=
      fun m v hmem => hvalues m v (List.mem_cons_of_mem _ hmem)
    by_cases hknown : ∃ m : Member, name = m.name
    · obtain ⟨m, rfl⟩ := hknown
      obtain rfl := hvalues m v List.mem_cons_self
      have hseen : m ∉ d.seen := fun hmem => hnew m hmem _ List.mem_cons_self
      have hnew' : ∀ other ∈ m :: d.seen, ∀ v, (other.name, v) ∉ members := by
        intro other hother v hmem
        rcases List.mem_cons.1 hother with rfl | hother
        · exact hfirst _ hmem other ⟨rfl, rfl⟩
        · exact hnew other hother v (List.mem_cons_of_mem _ hmem)
      obtain ⟨last, hreads, hlast, hlastSeen⟩ := ih hvalues' hothers (hd.copy m) hnew'
      refine ⟨last, .cons (readMember_known hfits hseen) hreads, hlast, fun other => ?_⟩
      rw [hlastSeen other, List.mem_cons]
      constructor
      · rintro ((rfl | hother) | ⟨v, hmem⟩)
        · exact .inr ⟨_, List.mem_cons_self⟩
        · exact .inl hother
        · exact .inr ⟨v, List.mem_cons_of_mem _ hmem⟩
      · rintro (hother | ⟨v, hmem⟩)
        · exact .inl (.inr hother)
        · rcases List.mem_cons.1 hmem with heq | hmem
          · exact .inl (.inl (Member.name_injective (Prod.mk.inj heq).1))
          · exact .inr ⟨v, hmem⟩
    · have hnot : ∀ m : Member, name ≠ m.name := fun m heq => hknown ⟨m, heq⟩
      have hnew' : ∀ m ∈ d.seen, ∀ v, (m.name, v) ∉ members :=
        fun m hm v hmem => hnew m hm v (List.mem_cons_of_mem _ hmem)
      obtain ⟨last, hreads, hlast, hlastSeen⟩ := ih hvalues' hothers hd hnew'
      refine ⟨last, .cons (readMember_unknown hnot d v) hreads, hlast, fun other => ?_⟩
      rw [hlastSeen other]
      simp [(hnot other).symm]

/-- **An object that gives a record is read as this record, in each of its texts.** -/
theorem readRecord_reads {r : Record} (hfits : r.Fits) {members : List (String × Datum)}
    (h : Gives r members) : Reads readRecord (.object members) r := by
  have hstart : Draft.Of r ⟨{ }, []⟩ := fun m => by simp
  obtain ⟨last, hreads, hlast, hseen⟩ :=
    exists_readsAll hfits h.values h.once hstart (by simp)
  have hrecord : last.record = r := by
    apply Member.ext_value
    intro m
    rw [hlast m]
    by_cases hm : m ∈ last.seen
    · rw [if_pos hm]
    · -- A member that is left out has its default.
      rw [if_neg hm]
      by_contra hne
      exact hm ((hseen m).2 (.inr (h.defaults m (Ne.symm hne))))
  intro before text rest hbefore htext _
  obtain ⟨inner, rfl, hmembers⟩ := Json.membersWithin_of_readsAll hreads htext
  rw [readRecord, Json.skipBlanks_append hbefore, List.cons_append, Json.skipBlanks_of_not rfl]
  simp only [hmembers rest, bind, Except.bind, hrecord]
  rfl

/-! ## Responses -/

theorem forall₂_readRecord_reads {records : List Record} {objects : List (List (String × Datum))}
    (hfits : ∀ r ∈ records, r.Fits) (h : List.Forall₂ Gives records objects) :
    List.Forall₂ (fun r v => Reads readRecord v r) records (objects.map .object) := by
  induction h with
  | nil => exact .nil
  | cons hr _ ih =>
    obtain ⟨hfirst, hothers⟩ := List.forall_mem_cons.1 hfits
    exact .cons (readRecord_reads hfirst hr) (ih hothers)

theorem length_of_decodeRecords {body : String} {expected : Nat} {records : List Record}
    (h : decodeRecords body expected = .ok records) : records.length = expected := by
  unfold decodeRecords at h
  split at h
  · simp at h
  · split at h
    · rename_i hlength
      rw [← Except.ok.inj h]
      exact hlength
    · simp at h

/-- **A response gives back the records by the names of their members.** Every text of a list of
objects that give some records is decoded as these records where there are as many as requests, and
otherwise the failure tells both numbers. Whatever a response is, the records that are decoded are as
many as the requests. -/
theorem decodeRecords_gives :
    (∀ (records : List Record) (objects : List (List (String × Datum))) (body : String)
      (expected : Nat), (∀ r ∈ records, r.Fits) → List.Forall₂ Gives records objects →
      Json.IsText (.list (objects.map .object)) body →
      decodeRecords body expected =
        if records.length = expected then .ok records
        else .error (.mismatch expected records.length)) ∧
    ∀ (body : String) (expected : Nat) (records : List Record),
      decodeRecords body expected = .ok records → records.length = expected := by
  constructor
  · intro records objects body expected hfits hgives hbody
    have hreads := Json.list_reads (forall₂_readRecord_reads hfits hgives)
    rw [decodeRecords, Json.ofText_of_reads hreads hbody]
  · exact fun _ _ _ => length_of_decodeRecords

section

open Json

/-- A response with members out of order, one of an unknown name, and escapes in a name and a value. -/
def mixedResponse : String :=
  "[ \x7b\"version\" : -3, \"x\":[null,1.5e3], \"pa\\u0074h\":\"a\\/b\" \x7d ,\x7b\x7d]"

/-- The members of its first object. -/
def mixedObject : List (String × Datum) :=
  [("version", .integer (-3)), ("x", .list [.null, .decimal "1.5e3"]), ("path", .string "a/b")]

/-- The response is a text of two objects, the second one empty. -/
theorem isText_mixedResponse : IsText (.list [.object mixedObject, .object []]) mixedResponse := by
  have hplain : ∀ c, c ≠ '"' ∧ c ≠ '\\' ∧ ¬ c.toNat < 0x20 → SpellsChar c [c] :=
    fun c h => .plain h.1 h.2.1 h.2.2
  have hdigits : ∀ c, c.isDigit = true → IsDigits [c] :=
    fun c hc => ⟨List.cons_ne_nil c [], fun d hd => List.mem_singleton.1 hd ▸ hc⟩
  have hwhole : IsWhole ['1'] := .inr ⟨hdigits '1' rfl, by decide⟩
  have hfraction : IsFraction ['.', '5'] := .present (hdigits '5' rfl)
  have hexponent : IsExponent ['e', '3'] := .present (.inl rfl) (.inl rfl) (hdigits '3' rfl)
  have hnumeral : IsNumeral "1.5e3".toList := .positive (.mk hwhole hfraction hexponent)
  have hletter : SpellsUnit 't'.toNat ['0', '0', '7', '4'] :=
    .mk (isHexDigit_hexDigit (n := 0) (by decide)) (isHexDigit_hexDigit (n := 0) (by decide))
      (isHexDigit_hexDigit (n := 7) (by decide)) (isHexDigit_hexDigit (n := 4) (by decide))
  have hpath : SpellsChars "path".toList "pa\\u0074h".toList :=
    .cons (hplain 'p' (by decide)) (.cons (hplain 'a' (by decide)) (.cons (.unit hletter)
      (.cons (hplain 'h' (by decide)) .nil)))
  have hvalue : SpellsChars "a/b".toList "a\\/b".toList :=
    .cons (hplain 'a' (by decide)) (.cons (.letter (d := '/') (by decide))
      (.cons (hplain 'b' (by decide)) .nil))
  have hunknown : Spells (.list [.null, .decimal "1.5e3"]) "[null,1.5e3]".toList :=
    .list blank_nil .null (.cons blank_nil blank_nil (.decimal hnumeral) (.nil blank_nil))
  have hobject : Spells (.object mixedObject)
      "\x7b\"version\" : -3, \"x\":[null,1.5e3], \"pa\\u0074h\":\"a\\/b\" \x7d".toList :=
    .object blank_nil (.mk (spellsString_quoted "version") blank_space) blank_space (.integer (-3))
      (.cons blank_nil blank_space (spellsName_quoted "x") blank_nil hunknown
        (.cons blank_nil blank_space (.mk (.mk hpath) blank_nil) blank_nil (.string (.mk hvalue))
          (.nil blank_space)))
  have hlist := Spells.list blank_space hobject
    (.cons blank_space blank_nil (.emptyObject blank_nil) (.nil blank_nil))
  exact ⟨[], _, [], blank_nil, hlist, blank_nil, rfl⟩

/-- The first object gives a record in spite of the escape and of the unknown member. -/
theorem gives_mixedObject : Gives { path := "a/b", version := -3 } mixedObject where
  values m v h := by cases m <;> simp_all [mixedObject, Member.name, Member.value]
  once := by
    simp only [mixedObject, List.pairwise_cons, List.mem_cons, forall_eq_or_imp]
    refine ⟨⟨?_, ?_, by simp⟩, ⟨?_, by simp⟩, by simp, .nil⟩
    all_goals
      intro m
      cases m <;> decide
  defaults m h := by cases m <;> simp_all [mixedObject, Member.name, Member.value]

/-- The response is decoded as the two records that its objects give, and refused where three records
are expected. -/
theorem decodeRecords_mixedResponse :
    decodeRecords mixedResponse 2 = .ok [{ path := "a/b", version := -3 }, { }] ∧
      decodeRecords mixedResponse 3 = .error (.mismatch 3 2) := by
  have hempty : Gives { } [] := ⟨by simp, .nil, fun m h => absurd rfl h⟩
  have hfits : ∀ r ∈ [({ path := "a/b", version := -3 } : Record), { }], r.Fits := by
    simp [Record.Fits]
  have hgives := List.Forall₂.cons gives_mixedObject (.cons hempty .nil)
  have hdecode := fun expected =>
    decodeRecords_gives.1 _ _ mixedResponse expected hfits hgives isText_mixedResponse
  exact ⟨hdecode 2, hdecode 3⟩

end

end PinnedImports.Registry

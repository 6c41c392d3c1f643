import Mathlib.Data.List.Forall2
import Mathlib.Data.List.Sort
import Mathlib.Tactic.Common
import PinnedImports.Dictionary

/-!
# What a dictionary answers

A dictionary is known by its answers. For each operation a lemma says how the answers of its result
come from those it started with; the entries, the keys and the size are answers too, because no key
occurs twice.
-/

set_option autoImplicit false

namespace PinnedImports

/-- Of two lists in step every member of one has its counterpart in the other. -/
theorem exists_of_forall₂ {α β : Type} {R : α → β → Prop} {as : List α} {bs : List β}
    (h : List.Forall₂ R as bs) :
    (∀ a ∈ as, ∃ b ∈ bs, R a b) ∧ ∀ b ∈ bs, ∃ a ∈ as, R a b := by
  induction h with
  | nil => simp
  | @cons a b as bs hab _ ih =>
    obtain ⟨hleft, hright⟩ := ih
    constructor
    · intro other hother
      rcases List.mem_cons.1 hother with rfl | hother
      · exact ⟨b, List.mem_cons_self .., hab⟩
      · obtain ⟨other', hmem, hother'⟩ := hleft other hother
        exact ⟨other', List.mem_cons_of_mem _ hmem, hother'⟩
    · intro other hother
      rcases List.mem_cons.1 hother with rfl | hother
      · exact ⟨a, List.mem_cons_self .., hab⟩
      · obtain ⟨other', hmem, hother'⟩ := hright other hother
        exact ⟨other', List.mem_cons_of_mem _ hmem, hother'⟩

end PinnedImports

namespace PinnedImports.Dictionary

universe u

variable {α : Type u}

theorem lookup_eq_some_iff {entries : List (String × α)}
    (h : entries.Pairwise (fun a b => a.1 < b.1)) (key : String) (value : α) :
    entries.lookup key = some value ↔ (key, value) ∈ entries := by
  induction entries with
  | nil => simp
  | cons entry rest ih =>
    obtain ⟨hentry, hrest⟩ := List.pairwise_cons.1 h
    obtain ⟨other, v⟩ := entry
    rw [List.lookup_cons, List.mem_cons]
    by_cases hkey : key = other
    · subst hkey
      -- A later entry of the same key would stand above itself in the order.
      have hfirst : (key, value) ∉ rest := fun hmem =>
        String.lt_irrefl key (hentry (key, value) hmem)
      simp only [beq_self_eq_true, Option.some.injEq, Prod.mk.injEq, true_and, hfirst, or_false]
      exact eq_comm
    · rw [beq_false_of_ne hkey, ih hrest]
      simp [hkey]

/-- **The entries are the answers.** -/
theorem mem_entries {d : Dictionary α} {key : String} {value : α} :
    (key, value) ∈ d.entries ↔ d.get? key = some value :=
  (lookup_eq_some_iff d.sorted key value).symm

theorem mem_keys {d : Dictionary α} {key : String} :
    key ∈ d.keys ↔ ∃ value, d.get? key = some value := by
  rw [keys, List.mem_map]
  constructor
  · rintro ⟨⟨key, value⟩, hmem, rfl⟩
    exact ⟨value, mem_entries.1 hmem⟩
  · rintro ⟨value, h⟩
    exact ⟨(key, value), mem_entries.2 h, rfl⟩

theorem contains_iff {d : Dictionary α} {key : String} :
    d.contains key = true ↔ ∃ value, d.get? key = some value := by
  rw [contains, Option.isSome_iff_exists]

theorem nodup_keys (d : Dictionary α) : d.keys.Nodup := by
  rw [keys, List.nodup_iff_pairwise_ne, List.pairwise_map]
  refine d.sorted.imp fun {a b} hlt heq => ?_
  rw [heq] at hlt
  exact String.lt_irrefl b.1 hlt

/-- **Dictionaries with the same answers are the same.** -/
theorem ext_get? {d e : Dictionary α} (h : ∀ key, d.get? key = e.get? key) : d = e := by
  have hirrefl : Std.Irrefl fun a b : String × α => a.1 < b.1 :=
    ⟨fun a hlt => String.lt_irrefl a.1 hlt⟩
  have hentries : d.entries = e.entries := by
    refine d.sorted.eq_of_mem_iff e.sorted fun entry => ?_
    rw [← Prod.eta entry, mem_entries, mem_entries, h]
  obtain ⟨entries, sorted⟩ := d
  obtain ⟨entries', sorted'⟩ := e
  simp only at hentries
  subst hentries
  rfl

theorem isEmpty_iff {d : Dictionary α} : d.isEmpty = true ↔ ∀ key, d.get? key = none := by
  rw [isEmpty, List.isEmpty_iff]
  constructor
  · intro h key
    rw [get?, h, List.lookup_nil]
  · intro h
    rw [List.eq_nil_iff_forall_not_mem]
    rintro ⟨key, value⟩ hmem
    rw [mem_entries, h] at hmem
    simp at hmem

theorem get?_insert (d : Dictionary α) (key other : String) (value : α) :
    (d.insert key value).get? other = if other = key then some value else d.get? other := by
  split
  · rename_i h
    rw [h, get?_insert_self]
  · rename_i h
    exact get?_insert_of_ne d value h

theorem get?_filter {d : Dictionary α} {p : String → α → Bool} {key : String} {value : α} :
    (d.filter p).get? key = some value ↔ d.get? key = some value ∧ p key value = true := by
  rw [← mem_entries, filter, List.mem_filter, mem_entries]

/-- A filter looks at the entries that are there, and at nothing else. -/
theorem filter_congr {d : Dictionary α} {p q : String → α → Bool}
    (h : ∀ key value, d.get? key = some value → p key value = q key value) :
    d.filter p = d.filter q := by
  rw [filter, filter, Dictionary.mk.injEq]
  apply List.filter_congr
  rintro ⟨key, value⟩ hentry
  exact h key value (mem_entries.1 hentry)

theorem filter_eq_self {d : Dictionary α} {p : String → α → Bool}
    (h : ∀ key value, d.get? key = some value → p key value = true) : d.filter p = d := by
  obtain ⟨entries, sorted⟩ := d
  rw [filter, Dictionary.mk.injEq, List.filter_eq_self]
  rintro ⟨key, value⟩ hentry
  exact h key value (mem_entries (d := ⟨entries, sorted⟩).1 hentry)

/-! ## Dictionaries of lists -/

theorem get?_foldl_insert_of_not_mem {entries : List (String × α)} {key : String}
    (h : ∀ entry ∈ entries, entry.1 ≠ key) (d : Dictionary α) :
    (entries.foldl (fun d entry => d.insert entry.1 entry.2) d).get? key = d.get? key := by
  induction entries generalizing d with
  | nil => rfl
  | cons entry rest ih =>
    rw [List.foldl_cons, ih fun e he => h e (List.mem_cons_of_mem _ he)]
    exact get?_insert_of_ne d entry.2 (h entry List.mem_cons_self).symm

theorem get?_foldl_insert {f : String → α} {entries : List (String × α)}
    (h : ∀ entry ∈ entries, entry.2 = f entry.1) {key : String}
    (hkey : ∃ entry ∈ entries, entry.1 = key) (d : Dictionary α) :
    (entries.foldl (fun d entry => d.insert entry.1 entry.2) d).get? key = some (f key) := by
  induction entries generalizing d with
  | nil => simp at hkey
  | cons entry rest ih =>
    rw [List.foldl_cons]
    by_cases hrest : ∃ e ∈ rest, e.1 = key
    · exact ih (fun e he => h e (List.mem_cons_of_mem _ he)) hrest _
    · obtain ⟨e, he, rfl⟩ := hkey
      rcases List.mem_cons.1 he with rfl | he
      · rw [get?_foldl_insert_of_not_mem fun e' he' heq => hrest ⟨e', he', heq⟩,
          get?_insert_self, h e List.mem_cons_self]
      · exact absurd ⟨e, he, rfl⟩ hrest

/-- **A dictionary of entries whose value depends on their key answers with these entries.** -/
theorem get?_ofList {f : String → α} {entries : List (String × α)}
    (h : ∀ entry ∈ entries, entry.2 = f entry.1) {key : String} {value : α} :
    (ofList entries).get? key = some value ↔ (key, value) ∈ entries := by
  constructor
  · intro hget
    by_cases hkey : ∃ entry ∈ entries, entry.1 = key
    · obtain ⟨entry, hentry, rfl⟩ := hkey
      rw [ofList, get?_foldl_insert h ⟨entry, hentry, rfl⟩, ← h entry hentry,
        Option.some.injEq] at hget
      rw [← hget]
      exact hentry
    · rw [ofList, get?_foldl_insert_of_not_mem fun e he heq => hkey ⟨e, he, heq⟩] at hget
      simp at hget
  · intro hmem
    rw [ofList, get?_foldl_insert h ⟨_, hmem, rfl⟩, ← h _ hmem]

theorem contains_ofList {entries : List (String × Unit)} {key : String} :
    (ofList entries).contains key = true ↔ ∃ entry ∈ entries, entry.1 = key := by
  rw [contains_iff]
  constructor
  · rintro ⟨value, h⟩
    exact ⟨_, (get?_ofList (f := fun _ => ()) (fun _ _ => rfl)).1 h, rfl⟩
  · rintro ⟨entry, hentry, rfl⟩
    exact ⟨(), (get?_ofList (f := fun _ => ()) (fun _ _ => rfl)).2 hentry⟩

/-- In a list of entries with keys of their own a lookup finds exactly the entries. -/
theorem lookup_eq_some_iff_of_nodup {entries : List (String × α)} (h : (entries.map (·.1)).Nodup)
    {key : String} {value : α} : entries.lookup key = some value ↔ (key, value) ∈ entries := by
  induction entries with
  | nil => simp
  | cons entry rest ih =>
    obtain ⟨other, v⟩ := entry
    obtain ⟨hother, hrest⟩ := List.nodup_cons.1 h
    rw [List.lookup_cons, List.mem_cons]
    by_cases hkey : key = other
    · subst hkey
      have hfirst : (key, value) ∉ rest := fun hmem =>
        hother (List.mem_map.2 ⟨(key, value), hmem, rfl⟩)
      simp only [beq_self_eq_true, Option.some.injEq, Prod.mk.injEq, true_and, hfirst, or_false]
      exact eq_comm
    · rw [beq_false_of_ne hkey, ih hrest]
      simp [hkey]

/-- **A dictionary of entries with keys of their own answers with these entries.** -/
theorem get?_ofList_of_nodup {entries : List (String × α)} (h : (entries.map (·.1)).Nodup)
    (key : String) : (ofList entries).get? key = entries.lookup key := by
  by_cases hkey : ∃ entry ∈ entries, entry.1 = key
  · obtain ⟨⟨key, value⟩, hentry, rfl⟩ := hkey
    have hvalues : ∀ entry ∈ entries, entry.2 = (entries.lookup entry.1).getD value := by
      rintro ⟨other, v⟩ hmem
      rw [(lookup_eq_some_iff_of_nodup h).2 hmem, Option.getD_some]
    rw [(get?_ofList (f := fun key => (entries.lookup key).getD value) hvalues).2 hentry,
      (lookup_eq_some_iff_of_nodup h).2 hentry]
  · have hnone : entries.lookup key = none := by
      refine List.lookup_eq_none_iff.2 fun entry hentry => ?_
      rw [bne_iff_ne]
      exact fun heq => hkey ⟨entry, hentry, heq.symm⟩
    rw [ofList, get?_foldl_insert_of_not_mem fun e he heq => hkey ⟨e, he, heq⟩, hnone]
    rfl

/-! ## Missing keys -/

/-- The keys without a value, each once and in the order in which they are first seen. -/
def missing (d : Dictionary α) (keys : List String) : List String :=
  (keys.filter fun key => (d.get? key).isNone).eraseDups

theorem missing_cons_of_known {d : Dictionary α} {key : String} {value : α}
    (h : d.get? key = some value) (rest : List String) :
    d.missing (key :: rest) = d.missing rest := by
  rw [missing, missing, List.filter_cons, if_neg (by simp [h])]

/-- Behind the insertion of a key it is not missing any more. -/
theorem missing_cons_of_unknown {d : Dictionary α} {key : String} (h : d.get? key = none)
    (value : α) (rest : List String) :
    d.missing (key :: rest) = key :: (d.insert key value).missing rest := by
  rw [missing, missing, List.filter_cons, if_pos (by rw [h]; rfl), List.eraseDups_cons,
    List.filter_filter]
  congr 2
  apply List.filter_congr
  intro other _
  simp only [get?_insert]
  by_cases heq : other = key
  · simp [heq]
  · simp [heq]

@[simp] theorem missing_empty (keys : List String) :
    (∅ : Dictionary α).missing keys = keys.eraseDups := by
  simp [missing]

/-! ## Lists of entries -/

theorem insertEntry_self (key : String) (first second : α) (entries : List (String × α)) :
    insertEntry key second (insertEntry key first entries) = insertEntry key second entries := by
  induction entries with
  | nil => simp only [insertEntry, String.lt_irrefl, if_false, if_true]
  | cons entry rest ih =>
    by_cases hlt : key < entry.1
    · simp only [insertEntry, hlt, String.lt_irrefl, if_false, if_true]
    by_cases heq : key = entry.1
    · simp only [insertEntry, ← heq, String.lt_irrefl, if_false, if_true]
    · simp only [insertEntry, hlt, heq, if_false, ih]

theorem insertEntry_comm_of_lt {a b : String} (h : a < b) (x y : α)
    (entries : List (String × α)) :
    insertEntry a x (insertEntry b y entries) = insertEntry b y (insertEntry a x entries) := by
  have hne : b ≠ a := fun heq => String.lt_irrefl _ (heq ▸ h)
  have hnot : ¬ b < a := fun hgt => String.lt_irrefl _ (String.lt_trans h hgt)
  induction entries with
  | nil => simp [insertEntry, h, hne, hnot]
  | cons entry rest ih =>
    -- The smaller key stands in front of the entry unless both come behind it.
    by_cases hb : b < entry.1
    · simp [insertEntry, hb, String.lt_trans h hb, h, hne, hnot]
    by_cases hb' : b = entry.1
    · simp only [insertEntry, ← hb', String.lt_irrefl, h, hne, hnot, if_false, if_true]
    by_cases ha : a < entry.1
    · simp [insertEntry, hb, hb', ha, hne, hnot]
    by_cases ha' : a = entry.1
    · simp only [insertEntry, ← ha', String.lt_irrefl, hne, hnot, if_false, if_true]
    · simp [insertEntry, hb, hb', ha, ha', ih]

/-- Entries of two keys may be inserted in either order. -/
theorem insertEntry_comm {a b : String} (h : a ≠ b) (x y : α) (entries : List (String × α)) :
    insertEntry a x (insertEntry b y entries) = insertEntry b y (insertEntry a x entries) := by
  -- It is enough to look at the keys in one order.
  by_cases hlt : a < b
  · exact insertEntry_comm_of_lt hlt x y entries
  · exact (insertEntry_comm_of_lt (lt_of_not_lt_of_ne hlt h) y x entries).symm

/-- What is read off a list of entries gains at most what is read off a new one. -/
theorem exists_filterMap_insertEntry {β : Type u} (g : String × α → Option β) (key : String)
    (value : α) (entries : List (String × α))
    (h : ∀ old, entries.lookup key = some old → g (key, old) = none) :
    ∃ before behind, entries.filterMap g = before ++ behind ∧
      (insertEntry key value entries).filterMap g =
        before ++ ((g (key, value)).toList ++ behind) := by
  have hcons : ∀ (entry : String × α) (rest : List (String × α)),
      (entry :: rest).filterMap g = (g entry).toList ++ rest.filterMap g := by
    intro entry rest
    rw [List.filterMap_cons]
    cases g entry <;> rfl
  induction entries with
  | nil => exact ⟨[], [], rfl, by rw [insertEntry, hcons]; rfl⟩
  | cons entry rest ih =>
    rw [insertEntry]
    split
    · exact ⟨[], (entry :: rest).filterMap g, rfl, by rw [hcons]; rfl⟩
    split
    · -- The entry that is exchanged is the one that a lookup finds.
      rename_i heq
      have hold : g entry = none := by
        have hlookup : (entry :: rest).lookup key = some entry.2 := by
          rw [heq, List.lookup_cons, beq_self_eq_true]
        rw [← h entry.2 hlookup, heq]
      refine ⟨[], rest.filterMap g, ?_, by rw [hcons]; rfl⟩
      rw [hcons, hold]
      rfl
    · rename_i hne
      have hrest : ∀ old, rest.lookup key = some old → g (key, old) = none := by
        intro old hlookup
        apply h
        rw [List.lookup_cons, beq_false_of_ne hne]
        exact hlookup
      obtain ⟨before, behind, hentries, hinserted⟩ := ih hrest
      refine ⟨(g entry).toList ++ before, behind, ?_, ?_⟩
      · rw [hcons, hentries, List.append_assoc]
      · rw [hcons, hinserted, List.append_assoc]

end PinnedImports.Dictionary

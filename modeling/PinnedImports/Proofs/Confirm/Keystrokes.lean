import PinnedImports.Proofs.Confirm.Answers

/-!
# Answers taken from keys

The same characters can be typed as bytes or as the keys of a terminal (`Key.ofChar`). A character
has a meaning as a key exactly if its bytes have, for no byte of a longer encoding has one. So questions
that read keys get the answers of those that read bytes, as long as there are keys with a meaning
(`gates_agree`); and a terminal that decodes the bytes by itself gives the same answers too, unless
an escape is typed, which takes the characters behind it for a sequence.
-/

set_option autoImplicit false

namespace PinnedImports.Confirm

/-! ## Characters as bytes and as keys -/

/-- The key as which a typed character arrives. -/
def Key.ofChar (c : Char) : Key :=
  if c = '\r' ∨ c = '\n' then .enter
  else if c = '\x03' then .ctrlC
  else if c = '\x01' then .home
  else .char c

theorem forall_byte {P : UInt8 → Prop} (h : ∀ n < 256, P (UInt8.ofNat n)) (byte : UInt8) :
    P byte := by
  have hbyte := h byte.toNat byte.toNat_lt
  rwa [UInt8.ofNat_toNat] at hbyte

theorem idle_of_le {byte : UInt8} (h : 128 ≤ byte.toNat) : Idle byte := by
  have hall : ∀ byte : UInt8, 128 ≤ byte.toNat → Decision.ofByte? byte = none :=
    forall_byte (by decide +kernel)
  exact hall byte h

theorem utf8EncodeChar_ascii {c : Char} (h : c.toNat < 128) :
    String.utf8EncodeChar c = [c.toUInt8] := by
  have hle : c.val.toNat ≤ 127 := Nat.le_of_lt_succ h
  simp only [String.utf8EncodeChar, if_pos hle]
  rfl

/-- No byte of a longer encoding is an ASCII character. -/
theorem le_of_mem_utf8EncodeChar {c : Char} (h : 128 ≤ c.toNat) :
    ∀ byte ∈ String.utf8EncodeChar c, 128 ≤ byte.toNat := by
  have hlt : ¬ c.val.toNat ≤ 127 := Nat.not_le_of_lt h
  intro byte hbyte
  simp only [String.utf8EncodeChar, if_neg hlt] at hbyte
  split_ifs at hbyte
  all_goals
    simp only [List.mem_cons, List.not_mem_nil, or_false] at hbyte
    rcases hbyte with rfl | rfl | rfl | rfl <;> simp only [UInt8.toNat_ofNat'] <;> omega

/-- An ASCII character means as a key what its byte means. -/
theorem ofByte?_ascii {c : Char} (h : c.toNat < 128) :
    Decision.ofByte? c.toUInt8 = Decision.ofKey? (.ofChar c) := by
  unfold Key.ofChar
  split_ifs with henter hctrlC hhome
  · rcases henter with rfl | rfl <;> rfl
  · subst hctrlC
    rfl
  · subst hhome
    rfl
  · exact (if_pos h).symm

theorem ofKey?_of_le {c : Char} (h : 128 ≤ c.toNat) : Decision.ofKey? (.ofChar c) = none := by
  have hne {d : Char} (hd : d.toNat < 128) : c ≠ d := by
    rintro rfl
    omega
  rw [Key.ofChar, if_neg (not_or.2 ⟨hne (by decide), hne (by decide)⟩), if_neg (hne (by decide)),
    if_neg (hne (by decide))]
  exact if_neg (Nat.not_lt.2 h)

/-- **A character means as a key what its bytes mean.** -/
theorem filterMap_utf8EncodeChar (c : Char) :
    (String.utf8EncodeChar c).filterMap Decision.ofByte? =
      (Decision.ofKey? (.ofChar c)).toList := by
  rcases Nat.lt_or_ge c.toNat 128 with hascii | hlong
  · rw [utf8EncodeChar_ascii hascii, ← ofByte?_ascii hascii]
    cases hbyte : Decision.ofByte? c.toUInt8 with
    | none => simp [hbyte]
    | some decision => simp [hbyte]
  · rw [ofKey?_of_le hlong]
    exact filterMap_idle fun byte hbyte => idle_of_le (le_of_mem_utf8EncodeChar hlong byte hbyte)

/-- The bytes of some characters. -/
def bytesOf (cs : List Char) : List UInt8 := cs.flatMap String.utf8EncodeChar

theorem toList_toUTF8 (typed : String) : typed.toUTF8.data.toList = bytesOf typed.toList := by
  rw [String.toUTF8_eq_toByteArray]
  conv_lhs => rw [← String.ofList_toList (s := typed)]
  rw [String.toByteArray_ofList, List.utf8Encode, List.data_toByteArray]
  rfl

theorem filterMap_bytesOf (cs : List Char) :
    (bytesOf cs).filterMap Decision.ofByte? =
      (cs.map Key.ofChar).filterMap Decision.ofKey? := by
  rw [bytesOf, List.filterMap_flatMap, List.filterMap_map, List.filterMap_eq_flatMap_toList]
  simp only [filterMap_utf8EncodeChar]
  rfl

/-! ## Keys read one at a time -/

section Step

variable {τ : Type} {next : τ → Option (Key × τ)} {terminal left : τ} {key : Key}

theorem decideByKeysWithin_meant {decision : Decision} (hnext : next terminal = some (key, left))
    (hkey : Decision.ofKey? key = some decision) (n : Nat) :
    decideByKeysWithin next (n + 1) terminal = some (decision, left) := by
  simp only [decideByKeysWithin, hnext, hkey]

theorem decideByKeysWithin_idle (hnext : next terminal = some (key, left))
    (hkey : Decision.ofKey? key = none) (n : Nat) :
    decideByKeysWithin next (n + 1) terminal = decideByKeysWithin next n left := by
  simp only [decideByKeysWithin, hnext, hkey]

end Step

theorem decideByKeysWithin_of_idle {keys : List Key}
    (h : keys.filterMap Decision.ofKey? = []) (n : Nat) :
    decideByKeysWithin List.next? n keys = none := by
  induction keys generalizing n with
  | nil => cases n <;> rfl
  | cons key keys ih =>
    cases n with
    | zero => rfl
    | succ n =>
      rw [List.filterMap_eq_nil_iff, List.forall_mem_cons, ← List.filterMap_eq_nil_iff] at h
      rw [decideByKeysWithin_idle rfl h.1]
      exact ih h.2 n

/-- Keys are read up to the first with a meaning. -/
theorem decideByKeysWithin_of_cons {keys : List Key} {decision : Decision}
    {decisions : List Decision} (h : keys.filterMap Decision.ofKey? = decision :: decisions)
    {n : Nat} (hn : keys.length ≤ n) :
    ∃ rest, decideByKeysWithin List.next? n keys = some (decision, rest) ∧
      rest.filterMap Decision.ofKey? = decisions := by
  induction keys generalizing n with
  | nil => simp at h
  | cons key keys ih =>
    obtain ⟨n, rfl⟩ : ∃ m, n = m + 1 := Nat.exists_eq_add_one_of_ne_zero (by simp at hn; omega)
    have hn : keys.length ≤ n := Nat.le_of_succ_le_succ hn
    cases hkey : Decision.ofKey? key with
    | none =>
      rw [List.filterMap_cons_none hkey] at h
      obtain ⟨rest, hrest, hdecisions⟩ := ih h hn
      exact ⟨rest, (decideByKeysWithin_idle rfl hkey n).trans hrest, hdecisions⟩
    | some first =>
      rw [List.filterMap_cons_some hkey, List.cons.injEq] at h
      obtain ⟨rfl, hdecisions⟩ := h
      exact ⟨keys, decideByKeysWithin_meant rfl hkey n, hdecisions⟩

/-- The decisions of some questions that read keys one at a time, each from where the one before has
stopped. There are none when a question waits for a key that does not come. -/
def decisionsOfKeys : Nat → List Key → Option (List Decision)
  | 0, _ => some []
  | n + 1, keys =>
    match decideByKeysWithin List.next? keys.length keys with
    | none => none
    | some (decision, rest) => (decisionsOfKeys n rest).map (decision :: ·)

/-- **Questions are answered as long as there are keys with a meaning**, and these are the
answers. -/
theorem decisionsOfKeys_eq (n : Nat) (keys : List Key) :
    decisionsOfKeys n keys = if n ≤ (keys.filterMap Decision.ofKey?).length then
      some ((keys.filterMap Decision.ofKey?).take n) else none := by
  induction n generalizing keys with
  | zero => rfl
  | succ n ih =>
    rw [decisionsOfKeys]
    cases hkeys : keys.filterMap Decision.ofKey? with
    | nil => rw [decideByKeysWithin_of_idle hkeys, List.length_nil, if_neg (Nat.not_succ_le_zero n)]
    | cons decision decisions =>
      obtain ⟨rest, hrest, rfl⟩ := decideByKeysWithin_of_cons hkeys (Nat.le_refl _)
      rw [hrest]
      simp only [ih, List.length_cons, Nat.add_le_add_iff_right, List.take_succ_cons]
      split <;> rfl

/-! ## Keys that a terminal decodes -/

/-- The first byte of a longer encoding tells how many follow it. -/
theorem exists_first_byte {c : Char} (h : 128 ≤ c.toNat) :
    ∃ first more, String.utf8EncodeChar c = first :: more ∧ 128 ≤ first.toNat ∧ more ≠ [] ∧
      Key.furtherBytes first = more.length := by
  have hfurther : ∀ byte : UInt8, Key.furtherBytes byte =
      if byte.toNat < 192 then 0 else if byte.toNat < 224 then 1 else if byte.toNat < 240 then 2
      else if byte.toNat < 248 then 3 else 0 := forall_byte (by decide +kernel)
  have hlt : ¬ c.val.toNat ≤ 127 := Nat.not_le_of_lt h
  simp only [String.utf8EncodeChar, if_neg hlt]
  split_ifs
  all_goals
    refine ⟨_, _, rfl, ?_, List.cons_ne_nil _ _, ?_⟩
    · rw [UInt8.toNat_ofNat']
      omega
    · simp only [hfurther, UInt8.toNat_ofNat', List.length_cons, List.length_nil]
      split_ifs <;> omega

/-- A byte that is neither Ctrl-C nor escape begins a character. -/
theorem next_cons {byte : UInt8} (hctrlC : byte ≠ 3) (hescape : byte ≠ 27) (rest : List UInt8) :
    Key.next (byte :: rest) = if Key.furtherBytes byte = 0 then (Key.ofByte byte, rest)
      else (.unknown, rest.drop (Key.furtherBytes byte)) := by
  unfold Key.next
  split
  · simp_all
  · simp_all
  · simp_all
  · rename_i heq
    rw [List.cons.injEq] at heq
    rw [heq.1, heq.2]
    split <;> simp_all

/-- The key of a single byte means what the byte means. -/
theorem ofKey?_ofByte {byte : UInt8} (h : byte.toNat < 128) (hctrlC : byte ≠ 3) :
    Decision.ofKey? (Key.ofByte byte) = Decision.ofByte? byte := by
  have hall : ∀ byte : UInt8, byte.toNat < 128 → byte ≠ 3 →
      Decision.ofKey? (Key.ofByte byte) = Decision.ofByte? byte :=
    forall_byte (by decide +kernel)
  exact hall byte h hctrlC

/-- **A terminal takes a character off its bytes**, and the key has the meaning of the character. -/
theorem exists_next_utf8EncodeChar {c : Char} (hescape : c ≠ '\x1b') (rest : List UInt8) :
    ∃ key, Key.next (String.utf8EncodeChar c ++ rest) = (key, rest) ∧
      Decision.ofKey? key = Decision.ofKey? (.ofChar c) := by
  rcases Nat.lt_or_ge c.toNat 128 with hascii | hlong
  · have htoNat : c.toUInt8.toNat = c.toNat := by
      have hmod : c.toUInt8.toNat = c.toNat % 256 := UInt32.toNat_toUInt8 c.val
      omega
    rw [utf8EncodeChar_ascii hascii, List.singleton_append, ← ofByte?_ascii hascii]
    by_cases hctrlC : c.toUInt8 = 3
    · rw [hctrlC]
      exact ⟨.ctrlC, rfl, rfl⟩
    · have hescape : c.toUInt8 ≠ 27 := by
        intro hbyte
        apply hescape
        rw [← Char.toNat_inj, ← htoNat, hbyte]
        rfl
      have hall : ∀ byte : UInt8, byte.toNat < 128 → Key.furtherBytes byte = 0 :=
        forall_byte (by decide +kernel)
      rw [next_cons hctrlC hescape, if_pos (hall _ (by omega))]
      exact ⟨_, rfl, ofKey?_ofByte (by omega) hctrlC⟩
  · obtain ⟨first, more, hencoded, hfirst, hmore, hfurther⟩ := exists_first_byte hlong
    have hne {byte : UInt8} (hbyte : byte.toNat < 128) : first ≠ byte := by
      rintro rfl
      omega
    have hpos : ¬ more.length = 0 := fun hzero => hmore (List.length_eq_zero_iff.1 hzero)
    rw [ofKey?_of_le hlong, hencoded, List.cons_append, next_cons (hne (by decide))
      (hne (by decide)), hfurther, if_neg hpos, List.drop_left]
    exact ⟨_, rfl, rfl⟩

/-- At a terminal there is always an answer, since Ctrl-C comes behind the last byte. -/
theorem exists_decideByKeysWithin {bytes : List UInt8} {n : Nat} (hn : bytes.length < n) :
    ∃ answer, decideByKeysWithin (fun bytes => some (Key.next bytes)) n bytes = some answer := by
  induction n generalizing bytes with
  | zero => exact absurd hn (Nat.not_lt_zero _)
  | succ n ih =>
    cases hkey : Decision.ofKey? (Key.next bytes).1 with
    | some decision =>
      exact ⟨_, decideByKeysWithin_meant rfl hkey n⟩
    | none =>
      -- Ctrl-C has a meaning, so there are bytes left, and the key has taken one of them.
      cases bytes with
      | nil => exact nomatch hkey
      | cons byte bytes =>
        have hless := Key.length_next_lt byte bytes
        obtain ⟨answer, hanswer⟩ := ih (Nat.lt_of_lt_of_le hless (Nat.le_of_lt_succ hn))
        exact ⟨answer, (decideByKeysWithin_idle rfl hkey n).trans hanswer⟩

/-- As many keys as there are bytes, and one more, are enough for the answer. -/
theorem decideByKeysWithin_length (bytes : List UInt8) :
    decideByKeysWithin (fun bytes => some (Key.next bytes)) (bytes.length + 1) bytes =
      some (decideByKeys bytes) := by
  obtain ⟨answer, hanswer⟩ := exists_decideByKeysWithin (Nat.lt_succ_self bytes.length)
  rw [decideByKeys, hanswer, Option.getD_some]

/-- **Bytes and keys of the same characters are decided alike.** The one that decides is the same
character, and what is left are the bytes of the characters behind it. -/
theorem exists_rest_of_bytesOf {cs : List Char} (hescape : '\x1b' ∉ cs) :
    ∃ rest, '\x1b' ∉ rest ∧ (decideByBytes (bytesOf cs)).rest = bytesOf rest ∧
      ∀ n, cs.length < n →
        decideByKeysWithin (fun bytes => some (Key.next bytes)) n (bytesOf cs) =
          some ((decideByBytes (bytesOf cs)).decision, bytesOf rest) := by
  induction cs with
  | nil =>
    refine ⟨[], hescape, rfl, fun n hn => ?_⟩
    obtain ⟨n, rfl⟩ := Nat.exists_eq_add_one_of_ne_zero (Nat.ne_of_gt hn)
    rfl
  | cons c cs ih =>
    rw [List.mem_cons, not_or] at hescape
    obtain ⟨hc, hcs⟩ := hescape
    obtain ⟨key, hnext, hkey⟩ := exists_next_utf8EncodeChar (Ne.symm hc) (bytesOf cs)
    have hbytes : bytesOf (c :: cs) = String.utf8EncodeChar c ++ bytesOf cs := rfl
    have hmeaning := filterMap_utf8EncodeChar c
    rw [← hkey] at hmeaning
    rw [hbytes]
    cases hdecision : Decision.ofKey? key with
    | none =>
      -- All bytes of the character are passed over, and so is its key.
      rw [hdecision] at hmeaning
      rw [decideByBytes_append (List.filterMap_eq_nil_iff.1 hmeaning)]
      obtain ⟨rest, hrest, hleft, hkeys⟩ := ih hcs
      refine ⟨rest, hrest, hleft, fun n hn => ?_⟩
      obtain ⟨n, rfl⟩ := Nat.exists_eq_add_one_of_ne_zero (Nat.ne_of_gt (Nat.zero_lt_of_lt hn))
      rw [decideByKeysWithin_idle (congrArg some hnext) hdecision]
      exact hkeys n (Nat.lt_of_succ_lt_succ hn)
    | some decision =>
      have hascii : c.toNat < 128 := by
        by_contra hlong
        rw [hkey, ofKey?_of_le (Nat.le_of_not_lt hlong)] at hdecision
        simp at hdecision
      have hbyte : Decision.ofByte? c.toUInt8 = some decision := by
        rw [ofByte?_ascii hascii, ← hkey, hdecision]
      have hdecides : decideByBytes (String.utf8EncodeChar c ++ bytesOf cs) =
          ⟨decision, 1, bytesOf cs⟩ := by
        rw [utf8EncodeChar_ascii hascii, List.singleton_append, decideByBytes, hbyte]
      rw [hdecides]
      refine ⟨cs, hcs, rfl, fun n hn => ?_⟩
      obtain ⟨n, rfl⟩ := Nat.exists_eq_add_one_of_ne_zero (Nat.ne_of_gt (Nat.zero_lt_of_lt hn))
      exact decideByKeysWithin_meant (congrArg some hnext) hdecision n

theorem length_le_bytesOf (cs : List Char) : cs.length ≤ (bytesOf cs).length := by
  induction cs with
  | nil => exact Nat.le_refl 0
  | cons c cs ih =>
    have hpos := Char.utf8Size_pos c
    rw [bytesOf, List.flatMap_cons, List.length_append, String.length_utf8EncodeChar,
      List.length_cons]
    exact Nat.add_comm 1 cs.length ▸ Nat.add_le_add hpos ih

/-- The answers of a terminal to some prompts, each from where the one before has stopped. -/
def answersAtTerminal (palette : Text.Palette) :
    List Prompt → Option (List UInt8) → List (Except String Decision)
  | [], _ => []
  | prompt :: prompts, terminal =>
    let ((answer, _), terminal) := askTerminal palette prompt terminal
    answer :: answersAtTerminal palette prompts terminal

/-- **A terminal at which no escape is typed gives the answers of the bytes.** -/
theorem answersAtTerminal_eq (palette : Text.Palette) (prompts : List Prompt) {cs : List Char}
    (hescape : '\x1b' ∉ cs) :
    answersAtTerminal palette prompts (some (bytesOf cs)) =
      (calls palette prompts (bytesOf cs)).map Call.answer := by
  induction prompts generalizing cs with
  | nil => rfl
  | cons prompt prompts ih =>
    obtain ⟨rest, hrest, hleft, hkeys⟩ := exists_rest_of_bytesOf hescape
    have hdecides : decideByKeys (bytesOf cs) =
        ((decideByBytes (bytesOf cs)).decision, bytesOf rest) := by
      have hlength := hkeys _ (Nat.lt_succ_of_le (length_le_bytesOf cs))
      exact Option.some.inj ((decideByKeysWithin_length (bytesOf cs)).symm.trans hlength)
    have hafter : (Call.of palette prompt (bytesOf cs)).after = bytesOf rest := hleft
    rw [calls, List.map_cons, hafter, ← ih hrest]
    simp only [answersAtTerminal, askTerminal, hdecides]
    rfl

/-! ## Bytes and keys -/

/-- The answers of bytes are their meanings as long as there are any. -/
theorem map_answer_calls_eq_take (palette : Text.Palette) {prompts : List Prompt}
    {bytes : List UInt8} (h : prompts.length ≤ (bytes.filterMap Decision.ofByte?).length) :
    (calls palette prompts bytes).map Call.answer =
      ((bytes.filterMap Decision.ofByte?).take prompts.length).map .ok := by
  rw [map_answer_calls]
  refine List.ext_getElem (by simp [h]) fun n hn hn' => ?_
  have hlt : n < (bytes.filterMap Decision.ofByte?).length := by
    rw [List.length_map, List.length_range] at hn
    omega
  simp [meanings, List.getElem?_eq_getElem hlt]

/-- **Bytes and keys are answered alike.** Some characters are typed, as bytes to one gate and as keys
to the other. As many questions as there are keys with a meaning get the same decisions from both, in
the same order; a further question waits at the keys. A terminal that decodes the bytes by itself gives
all the answers that they give, if no escape is typed. -/
theorem gates_agree (palette : Text.Palette) (prompts : List Prompt) (typed : String) :
    let bytes := typed.toUTF8.data.toList
    let keys := typed.toList.map Key.ofChar
    let meant := (keys.filterMap Decision.ofKey?).length
    (prompts.length ≤ meant →
      ∃ decisions, decisionsOfKeys prompts.length keys = some decisions ∧
        (calls palette prompts bytes).map Call.answer = decisions.map .ok) ∧
    (meant < prompts.length → decisionsOfKeys prompts.length keys = none) ∧
    ('\x1b' ∉ typed.toList →
      answersAtTerminal palette prompts (some bytes) =
        (calls palette prompts bytes).map Call.answer) := by
  intro bytes keys meant
  have hbytes : bytes = bytesOf typed.toList := toList_toUTF8 typed
  have hmeanings : bytes.filterMap Decision.ofByte? = keys.filterMap Decision.ofKey? := by
    rw [hbytes, filterMap_bytesOf]
  refine ⟨fun hle => ?_, fun hlt => ?_, fun hescape => ?_⟩
  · refine ⟨(keys.filterMap Decision.ofKey?).take prompts.length, ?_, ?_⟩
    · rw [decisionsOfKeys_eq, if_pos hle]
    · rw [← hmeanings]
      exact map_answer_calls_eq_take palette (hmeanings ▸ hle)
  · rw [decisionsOfKeys_eq, if_neg (Nat.not_le_of_lt hlt)]
  · rw [hbytes]
    exact answersAtTerminal_eq palette prompts hescape

/-- Enter behind a character of two bytes, a tab, and `y`. -/
theorem enter_then_yes :
    [(⟨"a", "b", "p"⟩ : Prompt), ⟨"c", "d", "p"⟩].length ≤
        (("é\r\ty".toList.map Key.ofChar).filterMap Decision.ofKey?).length ∧
      '\x1b' ∉ "é\r\ty".toList ∧
      decisionsOfKeys 2 ("é\r\ty".toList.map Key.ofChar) = some [.decline, .accept] ∧
      answersAtTerminal ⟨false⟩ [⟨"a", "b", "p"⟩, ⟨"c", "d", "p"⟩]
        (some "é\r\ty".toUTF8.data.toList) = [.ok .decline, .ok .accept] := by
  have hmeant : [(⟨"a", "b", "p"⟩ : Prompt), ⟨"c", "d", "p"⟩].length ≤
      (("é\r\ty".toList.map Key.ofChar).filterMap Decision.ofKey?).length := by decide
  have hescape : '\x1b' ∉ "é\r\ty".toList := by decide
  have hdecisions : decisionsOfKeys 2 ("é\r\ty".toList.map Key.ofChar) =
      some [.decline, .accept] := by decide
  obtain ⟨hagree, -, hterminal⟩ :=
    gates_agree ⟨false⟩ [⟨"a", "b", "p"⟩, ⟨"c", "d", "p"⟩] "é\r\ty"
  obtain ⟨decisions, hkeys, hbytes⟩ := hagree hmeant
  have heq : decisions = [.decline, .accept] := Option.some.inj (hkeys.symm.trans hdecisions)
  refine ⟨hmeant, hescape, hdecisions, ?_⟩
  rw [hterminal hescape, hbytes, heq]
  rfl

/-- Behind an escape the first character belongs to a sequence, which has no meaning. -/
example : decisionsOfKeys 1 ("\x1bny".toList.map Key.ofChar) = some [.decline] ∧
    (decideByKeys "\x1bny".toUTF8.data.toList).1 = .accept := by
  decide +kernel

end PinnedImports.Confirm

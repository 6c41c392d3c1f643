/-!
# Keys and decisions

An operator answers a question with one key. `Decision.ofByte?` gives the meaning of a typed byte:
Enter declines, Ctrl-C and Ctrl-A abort, and a byte without a meaning is ignored. A terminal decodes
bytes into keys first (`Key.next`); `Decision.ofKey?` gives the meaning of a key.
-/

set_option autoImplicit false

namespace PinnedImports.Confirm

/-- The operator's answer. -/
inductive Decision where
  /-- Take the proposed path. -/
  | accept
  /-- Keep the imports of this repository and go on. -/
  | decline
  /-- Stop without writing anything else. -/
  | abort
  deriving Repr, DecidableEq

/-- A key as a terminal reports it. -/
inductive Key where
  | char (c : Char)
  | enter
  | tab
  | backTab
  | backspace
  | escape
  | insert
  | delete
  | home
  | end
  | pageUp
  | pageDown
  | arrowUp
  | arrowDown
  | arrowLeft
  | arrowRight
  | ctrlC
  /-- A key without a name, such as an unknown escape sequence. -/
  | unknown
  deriving Repr, DecidableEq

/-- The meaning of a typed byte. -/
def Decision.ofByte? (b : UInt8) : Option Decision :=
  if b = 'y'.toUInt8 ∨ b = 'Y'.toUInt8 then some .accept
  else if b = 'n'.toUInt8 ∨ b = 'N'.toUInt8 ∨ b = '\r'.toUInt8 ∨ b = '\n'.toUInt8 then some .decline
  else if b = 3 ∨ b = 1 then some .abort
  else none

/-- The meaning of a key: ASCII characters mean what their bytes mean. -/
def Decision.ofKey? : Key → Option Decision
  | .char c => if c.toNat < 128 then ofByte? c.toUInt8 else none
  | .enter => some .decline
  | .ctrlC => some .abort
  | .home => some .abort
  | _ => none

namespace Key

/-- The key of an escape sequence `ESC [ b`, if one byte decides it. -/
def ofBracket? (b : UInt8) : Option Key :=
  match Char.ofNat b.toNat with
  | 'A' => some .arrowUp
  | 'B' => some .arrowDown
  | 'C' => some .arrowRight
  | 'D' => some .arrowLeft
  | 'H' => some .home
  | 'F' => some .end
  | 'Z' => some .backTab
  | _ => none

/-- The key of an escape sequence `ESC [ b ~`. -/
def ofTilde (b : UInt8) : Key :=
  match Char.ofNat b.toNat with
  | '1' => .home
  | '2' => .insert
  | '3' => .delete
  | '4' => .end
  | '5' => .pageUp
  | '6' => .pageDown
  | '7' => .home
  | '8' => .end
  | _ => .unknown

/-- The key of a single byte. -/
def ofByte (b : UInt8) : Key :=
  if b = 10 ∨ b = 13 then .enter
  else if b = 127 ∨ b = 8 then .backspace
  else if b = 9 then .tab
  else if b = 1 then .home
  else if b = 5 then .end
  else .char (Char.ofNat b.toNat)

/-- The number of further bytes of the character that starts with `b`. -/
def furtherBytes (b : UInt8) : Nat :=
  if b &&& 224 = 192 then 1 else if b &&& 240 = 224 then 2 else if b &&& 248 = 240 then 3 else 0

/-- The rest of an escape sequence. Ctrl-C ends a sequence at once. -/
def afterEscape : List UInt8 → Key × List UInt8
  | [] => (.ctrlC, [])
  | 3 :: rest => (.ctrlC, rest)
  | 91 :: rest =>
    match rest with
    | [] => (.ctrlC, [])
    | b :: rest =>
      if b = 3 then (.ctrlC, rest)
      else
        match ofBracket? b with
        | some key => (key, rest)
        | none =>
          match rest with
          | [] => (.ctrlC, [])
          | c :: rest =>
            if c = 3 then (.ctrlC, rest)
            else if c = 126 then (ofTilde b, rest) else (.unknown, rest)
  | _ :: rest => (.unknown, rest)

/-- The first key among the typed bytes and the bytes after it. Behind the last byte, Ctrl-C is
typed for ever. -/
def next : List UInt8 → Key × List UInt8
  | [] => (.ctrlC, [])
  | 3 :: rest => (.ctrlC, rest)
  | 27 :: rest => afterEscape rest
  | b :: rest =>
    match furtherBytes b with
    | 0 => (ofByte b, rest)
    | n => (.unknown, rest.drop n)

theorem length_afterEscape_le (bytes : List UInt8) :
    (afterEscape bytes).2.length ≤ bytes.length := by
  unfold afterEscape
  repeat' split
  all_goals simp_all <;> omega

/-- A key uses up a byte as long as there is one. -/
theorem length_next_lt (b : UInt8) (rest : List UInt8) :
    (next (b :: rest)).2.length < (b :: rest).length := by
  unfold next
  split
  · simp_all
  · simp_all
  · rename_i tail heq
    injection heq with _ h
    subst h
    exact Nat.lt_succ_of_le (length_afterEscape_le _)
  · rename_i heq
    injection heq with h1 h2
    subst h1 h2
    split
    · exact Nat.lt_succ_self _
    · exact Nat.lt_succ_of_le (by rw [List.length_drop]; exact Nat.sub_le _ _)

end Key

end PinnedImports.Confirm

import Mathlib.Data.List.Chain
import PinnedImports.Confirm.Asking

/-!
# Answers taken from bytes

Several questions in turn take their answers from one list of bytes, each from where the one before
has stopped (`calls`). One call passes over bytes without a meaning up to the first byte with one, or
up to the end (`Call.Serves`). So over all calls the bytes are filtered: the decisions are the meanings
of the bytes in their order, and behind the last of them there is only abort (`calls_filter`).
-/

set_option autoImplicit false

namespace PinnedImports.Confirm

/-! ## One call -/

/-- The question of a prompt printed `n` times, each on a line of its own. -/
def printed (palette : Text.Palette) (prompt : Prompt) (n : Nat) : Transcript :=
  .ofOut (String.join (List.replicate n (prompt.question palette ++ " (y/N)\n")))

/-- A question that was put to a list of bytes: the bytes before and behind it, the answer and what
was printed. -/
structure Call where
  prompt : Prompt
  before : List UInt8
  answer : Except String Decision
  transcript : Transcript
  after : List UInt8

/-- A byte without a meaning. -/
def Idle (byte : UInt8) : Prop := Decision.ofByte? byte = none

/-- What a call does. It consumes idle bytes and then the byte that decides, or all bytes if they are
idle, and prints the question for each byte that it consumes and once more where it meets the end. -/
inductive Call.Serves (palette : Text.Palette) : Call → Prop
  | decided {prompt : Prompt} {passed after : List UInt8} {byte : UInt8} {decision : Decision} :
      (∀ p ∈ passed, Idle p) → Decision.ofByte? byte = some decision →
        Call.Serves palette ⟨prompt, passed ++ byte :: after, .ok decision,
          printed palette prompt (passed ++ [byte]).length, after⟩
  | usedUp {prompt : Prompt} {passed : List UInt8} :
      (∀ p ∈ passed, Idle p) →
        Call.Serves palette ⟨prompt, passed, .ok .abort,
          printed palette prompt (passed.length + 1), []⟩

/-- The question is asked again for every idle byte. -/
theorem decideByBytes_append {passed : List UInt8} (h : ∀ p ∈ passed, Idle p)
    (bytes : List UInt8) :
    decideByBytes (passed ++ bytes) = ⟨(decideByBytes bytes).decision,
      passed.length + (decideByBytes bytes).asked, (decideByBytes bytes).rest⟩ := by
  induction passed with
  | nil => rw [List.nil_append, List.length_nil, Nat.zero_add]
  | cons p passed ih =>
    obtain ⟨hp, hpassed⟩ := List.forall_mem_cons.1 h
    rw [List.cons_append, decideByBytes, show Decision.ofByte? p = none from hp, ih hpassed]
    simp only [List.length_cons, Answer.mk.injEq, true_and, and_true]
    omega

/-- Bytes are idle up to the first with a meaning. -/
theorem idle_or_exists (bytes : List UInt8) :
    (∀ p ∈ bytes, Idle p) ∨ ∃ passed byte decision after, bytes = passed ++ byte :: after ∧
      (∀ p ∈ passed, Idle p) ∧ Decision.ofByte? byte = some decision := by
  induction bytes with
  | nil => exact .inl (by simp)
  | cons byte bytes ih =>
    cases hbyte : Decision.ofByte? byte with
    | some decision => exact .inr ⟨[], byte, decision, bytes, rfl, by simp, hbyte⟩
    | none =>
      rcases ih with hidle | ⟨passed, next, decision, after, rfl, hpassed, hnext⟩
      · exact .inl (List.forall_mem_cons.2 ⟨hbyte, hidle⟩)
      · exact .inr ⟨byte :: passed, next, decision, after, rfl,
          List.forall_mem_cons.2 ⟨hbyte, hpassed⟩, hnext⟩

/-- The call of a question. -/
def Call.of (palette : Text.Palette) (prompt : Prompt) (bytes : List UInt8) : Call :=
  let ((answer, transcript), after) := askBytes palette prompt bytes
  ⟨prompt, bytes, answer, transcript, after⟩

/-- **A call consumes the bytes up to the one that decides.** -/
theorem Call.serves_of (palette : Text.Palette) (prompt : Prompt) (bytes : List UInt8) :
    (Call.of palette prompt bytes).Serves palette := by
  have hcall : Call.of palette prompt bytes = ⟨prompt, bytes, .ok (decideByBytes bytes).decision,
      printed palette prompt (decideByBytes bytes).asked, (decideByBytes bytes).rest⟩ := rfl
  rcases idle_or_exists bytes with hidle | ⟨passed, byte, decision, after, rfl, hpassed, hbyte⟩
  · have hend := decideByBytes_append hidle []
    rw [List.append_nil] at hend
    rw [hcall, hend]
    exact .usedUp hidle
  · have hdecides : decideByBytes (byte :: after) = ⟨decision, 1, after⟩ := by
      rw [decideByBytes, hbyte]
    rw [hcall, decideByBytes_append hpassed, hdecides, ← List.length_singleton (a := byte),
      ← List.length_append]
    exact .decided hpassed hbyte

/-! ## Calls in turn -/

/-- The calls for some prompts, each on the bytes that the one before has left. -/
def calls (palette : Text.Palette) : List Prompt → List UInt8 → List Call
  | [], _ => []
  | prompt :: prompts, bytes =>
    Call.of palette prompt bytes :: calls palette prompts (Call.of palette prompt bytes).after

/-- The meanings of bytes in their order, and behind the last of them abort for ever. -/
def meanings (bytes : List UInt8) (n : Nat) : Decision :=
  ((bytes.filterMap Decision.ofByte?)[n]?).getD .abort

theorem filterMap_idle {passed : List UInt8} (h : ∀ p ∈ passed, Idle p) :
    passed.filterMap Decision.ofByte? = [] := List.filterMap_eq_nil_iff.2 h

/-- A call takes the first meaning and leaves the others. -/
theorem Call.Serves.meanings_eq {palette : Text.Palette} {call : Call} (h : call.Serves palette) :
    call.answer = .ok (meanings call.before 0) ∧
      ∀ n, meanings call.after n = meanings call.before (n + 1) := by
  cases h with
  | decided hpassed hbyte =>
    simp only [meanings, List.filterMap_append, filterMap_idle hpassed, List.nil_append,
      List.filterMap_cons_some hbyte]
    exact ⟨rfl, fun n => rfl⟩
  | usedUp hpassed =>
    simp only [meanings, filterMap_idle hpassed]
    exact ⟨rfl, fun n => rfl⟩

theorem map_answer_calls (palette : Text.Palette) (prompts : List Prompt) (bytes : List UInt8) :
    (calls palette prompts bytes).map Call.answer =
      (List.range prompts.length).map fun n => .ok (meanings bytes n) := by
  induction prompts generalizing bytes with
  | nil => rfl
  | cons prompt prompts ih =>
    obtain ⟨hfirst, hothers⟩ := (Call.serves_of palette prompt bytes).meanings_eq
    rw [calls, List.map_cons, ih, List.length_cons, List.range_succ_eq_map, List.map_cons,
      List.map_map, hfirst]
    simp only [hothers]
    rfl

theorem map_prompt_calls (palette : Text.Palette) (prompts : List Prompt) (bytes : List UInt8) :
    (calls palette prompts bytes).map Call.prompt = prompts := by
  induction prompts generalizing bytes with
  | nil => rfl
  | cons prompt prompts ih =>
    rw [calls, List.map_cons, ih]
    rfl

theorem serves_of_mem_calls {palette : Text.Palette} {prompts : List Prompt} :
    ∀ {bytes : List UInt8}, ∀ call ∈ calls palette prompts bytes, call.Serves palette := by
  induction prompts with
  | nil => simp [calls]
  | cons prompt prompts ih =>
    intro bytes
    rw [calls]
    exact List.forall_mem_cons.2 ⟨Call.serves_of palette prompt bytes, ih⟩

theorem before_of_head_calls {palette : Text.Palette} {prompts : List Prompt} {bytes : List UInt8} :
    ∀ first ∈ (calls palette prompts bytes).head?, first.before = bytes := by
  intro first hfirst
  cases prompts with
  | nil => simp [calls] at hfirst
  | cons prompt prompts =>
    rw [calls, List.head?_cons, Option.mem_some_iff] at hfirst
    rw [← hfirst]
    rfl

/-- Nothing is consumed between two calls. -/
theorem isChain_calls {palette : Text.Palette} {prompts : List Prompt} :
    ∀ {bytes : List UInt8},
      (calls palette prompts bytes).IsChain fun a b => b.before = a.after := by
  induction prompts with
  | nil => exact .nil
  | cons prompt prompts ih => exact List.isChain_cons.2 ⟨before_of_head_calls, ih⟩

/-- **The answers are the filtered bytes.** For every list of bytes and all prompts, the decision of
each call is the meaning with the number of the call among the bytes, and abort behind the last of
them. Each call begins where the one before has stopped, and consumes and prints what one call
does. -/
theorem calls_filter (palette : Text.Palette) (prompts : List Prompt) (bytes : List UInt8) :
    (calls palette prompts bytes).map Call.prompt = prompts ∧
    (calls palette prompts bytes).map Call.answer =
      (List.range prompts.length).map (fun n => .ok (meanings bytes n)) ∧
    (∀ call ∈ calls palette prompts bytes, call.Serves palette) ∧
    (∀ first ∈ (calls palette prompts bytes).head?, first.before = bytes) ∧
    (calls palette prompts bytes).IsChain (fun a b => b.before = a.after) :=
  ⟨map_prompt_calls palette prompts bytes, map_answer_calls palette prompts bytes,
    serves_of_mem_calls, before_of_head_calls, isChain_calls⟩

/-- Three questions to the keys `x`, `y` and Enter. -/
example : (calls ⟨false⟩ (List.replicate 3 ⟨"a", "b", "p"⟩) [120, 121, 13]).map
    (fun call => (call.answer.toOption, call.after)) =
      [(some .accept, [13]), (some .decline, []), (some .abort, [])] := by
  decide +kernel

end PinnedImports.Confirm

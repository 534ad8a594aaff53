import Nefarious.Strings
import Mathlib.Algebra.Order.Group.Nat

/-!
# Messages between servers

A message is a line of text: the numeric of its source, the token of its command, and parameters separated by
blanks, the last of which may be introduced by a colon.
-/

namespace Nefarious

/-- Longest line, with its end. `ircd_defs.h`. -/
def bufSize : ℕ := 512

/-- Most parameters of a message. `msg.h`. -/
def maxPara : ℕ := 15

lemma two_le_maxPara : 2 ≤ maxPara := by decide

/-- The text of a message buffer, without the line end: what does not fit is cut.
`msgq.c` `msgq_vmake`, `msgq_append` -/
def msgqMake (text : Str) : Str := text.take (bufSize - 2)

/-- Split the parameters of a message. When `paramcount` is reached, the rest is one parameter.
`parse.c` `parse_server` -/
def parseParams : ℕ → Str → List Str
  | 0, _ => []
  | n + 1, s =>
    match s.dropWhile (· = ' ') with
    | [] => []
    | ch :: s =>
      if ch = ':' then [s]
      else if n = 0 then [ch :: s]
      else (ch :: s.takeWhile (· ≠ ' ')) :: parseParams n (s.dropWhile (· ≠ ' '))

/-- The parameters of a whole line: behind the source and the command.
`parse.c` `parse_server` -/
def messageParams (line : Str) : List Str :=
  let ch := (line.dropWhile (· ≠ ' ')).dropWhile (· = ' ')
  parseParams maxPara (ch.dropWhile (· ≠ ' '))

/-- A parameter that is read back as it was written: not empty, without blanks, and not introduced
by a colon. -/
structure IsWord (w : Str) : Prop where
  ne_nil : w ≠ []
  blank : ' ' ∉ w
  colon : w.head? ≠ some ':'

instance : DecidablePred IsWord := fun w =>
  decidable_of_iff (w ≠ [] ∧ ' ' ∉ w ∧ w.head? ≠ some ':')
    ⟨fun h => ⟨h.1, h.2.1, h.2.2⟩, fun h => ⟨h.ne_nil, h.blank, h.colon⟩⟩

lemma isWord_ab : IsWord "AB".toList := by decide

lemma isWord_abaaa : IsWord "ABAAA".toList := by decide

lemma isWord_abaab : IsWord "ABAAB".toList := by decide

lemma length_abaaa : "ABAAA".toList.length ≤ 5 := by decide

lemma length_abaab : "ABAAB".toList.length ≤ 5 := by decide

lemma length_bob : "bob".toList.length ≤ 30 := by decide

variable {w s : Str} {n : ℕ}

lemma IsWord.append (hw : IsWord w) (hs : ' ' ∉ s) : IsWord (w ++ s) := by
  refine ⟨?_, ?_, ?_⟩
  · exact fun h => hw.ne_nil (List.append_eq_nil_iff.1 h).1
  · exact fun h => (List.mem_append.1 h).elim hw.blank hs
  · rw [List.head?_append_of_ne_nil _ hw.ne_nil]
    exact hw.colon

/-- Each word behind a blank. `channel.c` `build_string`. -/
def spaced (ws : List Str) : Str := ws.flatMap (' ' :: ·)

@[simp] lemma spaced_nil : spaced [] = [] := rfl

@[simp] lemma spaced_cons (w : Str) (ws : List Str) : spaced (w :: ws) = ' ' :: w ++ spaced ws := by
  simp [spaced]

@[simp] lemma spaced_append (ws ws' : List Str) : spaced (ws ++ ws') = spaced ws ++ spaced ws' := by
  simp [spaced]

/-- A rest of the message that starts a new parameter, or is empty. -/
def StartsBlank (s : Str) : Prop := s = [] ∨ s.head? = some ' '

lemma startsBlank_spaced (ws : List Str) (h : StartsBlank s) : StartsBlank (spaced ws ++ s) := by
  cases ws with
  | nil => simpa using h
  | cons w ws => exact .inr (by simp)

lemma takeWhile_word (hw : ' ' ∉ w) (hs : StartsBlank s) :
    (w ++ s).takeWhile (· ≠ ' ') = w ∧ (w ++ s).dropWhile (· ≠ ' ') = s := by
  have hall : ∀ c ∈ w, decide (c ≠ ' ') = true := by
    intro c hc
    simp only [ne_eq, decide_not, Bool.not_eq_eq_eq_not, Bool.not_true, decide_eq_false_iff_not]
    rintro rfl
    exact hw hc
  rw [List.takeWhile_append_of_pos hall, List.dropWhile_append_of_pos hall]
  rcases hs with rfl | hs
  · simp
  · obtain ⟨s', rfl⟩ : ∃ s', s = ' ' :: s' := by
      cases s with
      | nil => simp at hs
      | cons c s' => exact ⟨s', by simpa using hs⟩
    simp

/-- **A word is read back**, as long as it is not the last parameter allowed. -/
theorem parseParams_word (hw : IsWord w) (hs : StartsBlank s) (hn : n ≠ 0) :
    parseParams (n + 1) (' ' :: w ++ s) = w :: parseParams n s := by
  obtain ⟨c, w', rfl⟩ := List.exists_cons_of_ne_nil hw.ne_nil
  have hc : c ≠ ' ' := fun e => hw.blank (by simp [e])
  have hc' : c ≠ ':' := fun e => hw.colon (by simp [e])
  have hw' : ' ' ∉ w' := fun e => hw.blank (List.mem_cons_of_mem _ e)
  obtain ⟨h1, h2⟩ := takeWhile_word hw' hs
  simpa [parseParams, hc, hc', hn] using And.intro h1 (congrArg (parseParams n) h2)

/-- **Words are read back**, and the splitting goes on behind them. -/
theorem parseParams_words {ws : List Str} (hws : ∀ w ∈ ws, IsWord w) (hs : StartsBlank s)
    (hn : n ≠ 0) : parseParams (ws.length + n) (spaced ws ++ s) = ws ++ parseParams n s := by
  induction ws with
  | nil => simp
  | cons w ws ih =>
    have ih := ih (fun v hv => hws v (List.mem_cons_of_mem _ hv))
    rw [spaced_cons, List.append_assoc, List.length_cons, show ws.length + 1 + n = ws.length + n + 1 by omega,
      parseParams_word (hws w List.mem_cons_self) (startsBlank_spaced ws hs) (by omega), ih,
      List.cons_append]

@[simp] lemma parseParams_nil (n : ℕ) : parseParams n [] = [] := by
  cases n <;> simp [parseParams]

lemma messageParams_line {source command : Str} (hs : IsWord source) (hc : IsWord command)
    (hb : StartsBlank s) : messageParams (source ++ spaced [command] ++ s) = parseParams maxPara s := by
  obtain ⟨c, w, rfl⟩ := List.exists_cons_of_ne_nil hc.ne_nil
  have hcb : c ≠ ' ' := fun e => hc.blank (by simp [e])
  have h1 := (takeWhile_word hs.blank (Or.inr rfl : StartsBlank (' ' :: (c :: w ++ s)))).2
  have h2 := (takeWhile_word hc.blank hb).2
  have h0 : (' ' :: (c :: w ++ s)).dropWhile (· = ' ') = c :: w ++ s := by
    simp [hcb]
  unfold messageParams
  rw [show source ++ spaced [c :: w] ++ s = source ++ ' ' :: (c :: w ++ s) by simp, h1, h0]
  exact congrArg (parseParams maxPara) h2

lemma parseParams_trailing (hn : n ≠ 0) (s : Str) : parseParams n (' ' :: ':' :: s) = [s] := by
  obtain ⟨n, rfl⟩ := Nat.exists_eq_succ_of_ne_zero hn
  simp [parseParams]

end Nefarious

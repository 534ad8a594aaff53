import Nefarious.Parse.Command
import Mathlib.Tactic.Linarith

/-!
# Where the lines of servers go

A line of a server is dropped, or handed to `do_numeric`, or to the handler of a command.
-/

namespace Nefarious.Parse

open Option (some.inj)

/-- Three characters whose number is from 1 to 999. `parse.c` `parse_server`. -/
def IsNumber : Str → Prop
  | [x, y, z] => 5329 ≤ 100 * charInt x + 10 * charInt y + charInt z ∧
      100 * charInt x + 10 * charInt y + charInt z ≤ 6327
  | _ => False

lemma isNumber_iff {w : Str} (h : w.length = 3) : IsNumber w ↔ 1 ≤ numeric w ∧ numeric w ≤ 999 := by
  match w, h with
  | [x, y, z], _ =>
    unfold IsNumber numeric
    constructor
    · rintro ⟨hlow, hhigh⟩
      constructor <;> linarith
    · rintro ⟨hlow, hhigh⟩
      constructor <;> linarith

section
variable {κ : Type}

def Safe (L : Link κ) : Outcome κ → Prop
  | .dropped => True
  | .doNumeric number src _ => 1 ≤ number ∧ number ≤ 999 ∧ L.cliFrom src = L.cptr
  | .handler mptr src _ =>
    (∃ m, mptr = some m ∧ (InTree m L.tokTree ∨ InTree m L.msgTree)) ∧ L.cliFrom src = L.cptr

lemma inTree_or {L : Link κ} {cmd : Str} {m : Message}
    (h : (msgTreeParse cmd L.tokTree).or (msgTreeParse cmd L.msgTree) = some m) :
    InTree m L.tokTree ∨ InTree m L.msgTree := by
  cases htok : msgTreeParse cmd L.tokTree with
  | none =>
    rw [htok] at h
    exact .inr (msgTreeParse_inTree cmd h)
  | some m' =>
    rw [htok] at h
    obtain rfl := some.inj h
    exact .inl (msgTreeParse_inTree cmd htok)

lemma isNumeric_spec {ch : Str} (h : isNumeric ch = true) : cur ch ≠ nul ∧ (ch.takeWhile inWord).length =
    3 := by
  unfold isNumeric at h
  obtain ⟨hwhole, hdigit⟩ := Bool.and_eq_true_iff.mp h
  refine ⟨fun hnul => ?_, of_decide_eq_true (Bool.and_eq_true_iff.mp hwhole).2⟩
  rw [hnul] at hdigit
  exact absurd hdigit (by decide)

lemma dispatch_safe_iff {L : Link κ} {src : κ} (hsrc : L.cliFrom src = L.cptr) (name : Str) (ch : Cursor) :
    Safe L (dispatch L src name ch) ↔ (isNumeric ch.s = true → IsNumber (ch.s.takeWhile inWord)) := by
  unfold dispatch
  by_cases hnum : isNumeric ch.s = true
  · obtain ⟨hend, hlen⟩ := isNumeric_spec hnum
    rw [if_neg hend, if_pos hnum]
    have hiff := isNumber_iff hlen
    dsimp only
    by_cases hzero : numeric (ch.s.takeWhile inWord) ≠ 0
    · rw [if_pos hzero]
      constructor
      · exact fun hsafe _ => hiff.mpr ⟨hsafe.1, hsafe.2.1⟩
      · intro hnumber
        obtain ⟨hlow, hhigh⟩ := hiff.mp (hnumber hnum)
        exact ⟨hlow, hhigh, hsrc⟩
    · rw [if_neg hzero]
      constructor
      · rintro ⟨⟨m, hm, -⟩, -⟩
        cases hm
      · intro hnumber
        have hlow := (hiff.mp (hnumber hnum)).1
        rw [not_not.mp hzero] at hlow
        exact absurd hlow (by decide)
  · refine iff_of_true ?_ fun h => absurd h hnum
    by_cases hend : cur ch.s = nul
    · rw [if_pos hend]
      exact trivial
    · rw [if_neg hend, if_neg hnum]
      dsimp only
      split
      · exact trivial
      · rename_i m hfound
        exact ⟨⟨m, rfl, inTree_or hfound⟩, hsrc⟩

variable [DecidableEq κ]

lemma serverPrefix_reached {L : Link κ} {buffer name : Str} {src : κ} {ch : Cursor}
    (h : serverPrefix L buffer = some (src, name, ch)) : L.cliFrom src = L.cptr := by
  have hlink : ∀ {p : Prop} [Decidable p] {name' : Str} {k : Cursor},
      (if p then some (L.cptr, name', k) else none) = some (src, name, ch) → L.cliFrom src = L.cptr := by
    intro p _ name' k hk
    split at hk
    · rw [← (Prod.mk.inj (some.inj hk)).1]
      exact L.self
    · cases hk
  have hknown : ∀ {src' : κ} {name' : Str} {k : Cursor},
      (if L.cliFrom src' = L.cptr then some (src', name', k) else none) = some (src, name, ch) →
      L.cliFrom src = L.cptr := by
    intro src' name' k hk
    split at hk
    · rename_i hreached
      rw [← (Prod.mk.inj (some.inj hk)).1]
      exact hreached
    · cases hk
  unfold serverPrefix at h
  split at h
  · dsimp only at h
    split at h
    · split at h
      · exact hlink h
      · exact hknown h
    · cases h
  · dsimp only at h
    split at h
    · exact hlink h
    · exact hknown h

/-- **A line goes where it should**, exactly when a command that is taken for a numeric is a number from 1 to
999. -/
theorem parseServer_safe_iff (L : Link κ) (buffer : Str) : Safe L (parseServer L buffer) ↔
    (L.dead = false → ∀ src name ch, serverPrefix L buffer = some (src, name, ch) → isNumeric ch.s = true →
      IsNumber (ch.s.takeWhile inWord)) := by
  unfold parseServer
  cases hdead : L.dead with
  | true => exact iff_of_true trivial nofun
  | false =>
    rw [if_neg Bool.false_ne_true]
    cases hprefix : serverPrefix L buffer with
    | none => exact iff_of_true trivial fun _ _ _ _ h => absurd h (Option.some_ne_none _).symm
    | some t =>
      obtain ⟨src, name, ch⟩ := t
      refine (dispatch_safe_iff (serverPrefix_reached hprefix) name ch).trans ⟨?_, fun h => h rfl src name ch rfl⟩
      rintro h - src' name' ch' heq
      obtain ⟨rfl, htail⟩ := Prod.mk.inj (some.inj heq)
      obtain ⟨rfl, rfl⟩ := Prod.mk.inj htail
      exact h

end

/-- A number of zero, and one that is too large. `parse.c` `parse_server`. -/
theorem zero_numeric : ¬ Safe sampleLink (parseServer sampleLink ("AB 000 x".toList ++ [nul])) ∧
    ¬ Safe sampleLink (parseServer sampleLink ("AB 9zz x".toList ++ [nul])) := by
  constructor
  · rintro ⟨⟨m, hm, -⟩, -⟩
    cases hm
  · rintro ⟨-, hhigh, -⟩
    exact absurd hhigh (by decide)

end Nefarious.Parse

import Mathlib.Data.List.Induction
import Mathlib.Data.Option.Basic

/-!
# What has held since an event

Runs of a machine whose steps may fail (`after`), and a statement about the past of a run: an event of
some kind has happened, and something holds in every state since then (`Since`).
-/

namespace Nefarious.Lib

variable {σ ε : Type*}

def after (step : σ → ε → Option σ) (init : σ) (es : List ε) : Option σ := es.foldlM step init

variable {step : σ → ε → Option σ} {init : σ}

@[simp] lemma after_nil : after step init [] = some init := rfl

lemma after_concat (es : List ε) (e : ε) :
    after step init (es ++ [e]) = (after step init es).bind fun s => step s e := by
  simp [after, List.foldlM_append]

lemma after_concat_eq_some {es : List ε} {e : ε} {s' : σ} :
    after step init (es ++ [e]) = some s' ↔ ∃ s, after step init es = some s ∧ step s e = some s' := by
  rw [after_concat, Option.bind_eq_some_iff]

/-- **Induction over a run.** -/
theorem run_induction {P : List ε → σ → Prop} (hinit : P [] init)
    (hstep : ∀ es s e s', after step init es = some s → P es s → step s e = some s' → P (es ++ [e]) s')
    {es : List ε} {s : σ} (h : after step init es = some s) : P es s := by
  induction es using List.reverseRecOn generalizing s with
  | nil =>
    rw [← Option.some.inj h]
    exact hinit
  | append_singleton es e ih =>
    obtain ⟨t, ht, he⟩ := after_concat_eq_some.mp h
    exact hstep es t e s ht (ih ht) he

/-- An event of a kind has happened, and something holds in every state since then. -/
def Since (step : σ → ε → Option σ) (init : σ) (event : σ → ε → Prop) (kept : σ → Prop) (es : List ε) : Prop :=
  ∃ es₁ e es₂ s, es = es₁ ++ e :: es₂ ∧ after step init es₁ = some s ∧ event s e ∧
    ∀ k ≤ es₂.length, ∃ s', after step init (es₁ ++ e :: es₂.take k) = some s' ∧ kept s'

variable {event : σ → ε → Prop} {kept : σ → Prop}

lemma Since.now {es : List ε} {e : ε} {s s' : σ} (h : after step init es = some s) (he : event s e)
    (h' : step s e = some s') (hk : kept s') : Since step init event kept (es ++ [e]) := by
  refine ⟨es, e, [], s, rfl, h, he, fun k _ => ⟨s', ?_, hk⟩⟩
  rw [List.take_nil]
  exact after_concat_eq_some.mpr ⟨s, h, h'⟩

lemma Since.keep {es : List ε} {e : ε} {s s' : σ} (hs : Since step init event kept es)
    (h : after step init es = some s) (h' : step s e = some s') (hk : kept s') :
    Since step init event kept (es ++ [e]) := by
  obtain ⟨es₁, e₀, es₂, s₀, rfl, h₀, he₀, hkept⟩ := hs
  refine ⟨es₁, e₀, es₂ ++ [e], s₀, by simp, h₀, he₀, fun k hk' => ?_⟩
  by_cases hlast : k ≤ es₂.length
  · rw [List.take_append_of_le_length hlast]
    exact hkept k hlast
  · rw [List.take_of_length_le (by simp at hk' ⊢; omega)]
    refine ⟨s', ?_, hk⟩
    have := after_concat_eq_some.mpr ⟨s, h, h'⟩
    simpa using this

/-- **What holds has held since an event that made it hold.** -/
theorem since_of_kept (hinit : ¬ kept init)
    (hstep : ∀ es s e s', after step init es = some s → step s e = some s' → kept s' → kept s ∨ event s e)
    {es : List ε} {s : σ} (h : after step init es = some s) (hk : kept s) : Since step init event kept es := by
  revert hk
  refine run_induction (P := fun es s => kept s → Since step init event kept es)
    (fun hk => absurd hk hinit) ?_ h
  intro es s e s' hs ih he hk
  rcases hstep es s e s' hs he hk with h' | h'
  · exact (ih h').keep hs he hk
  · exact Since.now hs h' he hk

/-- **Every event that sets a mark is followed by one that removes it**, where the mark is gone. -/
theorem followed_of_clear {sets clears : ε → Prop} {mark : σ → Prop}
    (hset : ∀ s e s', step s e = some s' → sets e → mark s')
    (hkeep : ∀ s e s', step s e = some s' → mark s → ¬ clears e → mark s')
    {es : List ε} {s : σ} (h : after step init es = some s) (hs : ¬ mark s) :
    ∀ es₁ e es₂, es = es₁ ++ e :: es₂ → sets e → ∃ e' ∈ es₂, clears e' := by
  revert hs
  refine run_induction (P := fun es s => ¬ mark s → ∀ es₁ e es₂, es = es₁ ++ e :: es₂ → sets e →
    ∃ e' ∈ es₂, clears e') (fun _ es₁ e es₂ he => absurd he (by simp)) ?_ h
  intro es s e s' _ ih he hs' es₁ e₁ es₂ heq hsets
  -- the event in question is the last one, or stands in the run before it
  rcases List.eq_nil_or_concat es₂ with rfl | ⟨es₂', e', rfl⟩
  · obtain ⟨-, h₁⟩ := List.append_inj' heq rfl
    obtain rfl : e = e₁ := by simpa using h₁
    exact absurd (hset s e s' he hsets) hs'
  · rw [List.concat_eq_append, ← List.cons_append, ← List.append_assoc] at heq
    obtain ⟨hes, h₁⟩ := List.append_inj' heq rfl
    obtain rfl : e = e' := by simpa using h₁
    by_cases hclear : clears e
    · exact ⟨e, by simp, hclear⟩
    · have hs : ¬ mark s := fun hm => hs' (hkeep s e s' he hm hclear)
      obtain ⟨x, hx, hcx⟩ := ih hs es₁ e₁ es₂' hes hsets
      exact ⟨x, by simp [hx], hcx⟩

end Nefarious.Lib

import Mathlib.Data.Option.Basic

/-!
# Runs

A system takes steps on events; a step may be undefined.
-/

namespace Nefarious.Lib.Runs

variable {σ ε : Type}

def run (step : σ → ε → Option σ) (s : σ) : List ε → Option σ
  | [] => some s
  | e :: es => (step s e).bind (run step · es)

lemma run_append (step : σ → ε → Option σ) (fs : List ε) : (es : List ε) → (s : σ) →
    run step s (es ++ fs) = (run step s es).bind (run step · fs)
  | [], _ => rfl
  | e :: es, s => by
    rw [List.cons_append, run, run, Option.bind_assoc]
    exact congrArg _ (funext fun t => run_append step fs es t)

/-- Every event of a run meets a condition. -/
def Meets (step : σ → ε → Option σ) (cond : σ → ε → Bool) (s : σ) : List ε → Prop
  | [] => True
  | e :: es => cond s e = true ∧ ∀ t, step s e = some t → Meets step cond t es

instance decidableMeets (step : σ → ε → Option σ) (cond : σ → ε → Bool) :
    (es : List ε) → (s : σ) → Decidable (Meets step cond s es)
  | [], _ => isTrue trivial
  | e :: es, s =>
    match h : step s e with
    | none => decidable_of_iff (cond s e = true) ⟨fun hc => ⟨hc, fun t ht => by cases h.symm.trans ht⟩,
        And.left⟩
    | some t =>
      have := decidableMeets step cond es t
      decidable_of_iff (cond s e = true ∧ Meets step cond t es)
        ⟨fun ⟨hc, ht⟩ => ⟨hc, fun u hu => by cases h.symm.trans hu; exact ht⟩,
          fun ⟨hc, ht⟩ => ⟨hc, ht t h⟩⟩

section Meets

variable {step : σ → ε → Option σ} {cond : σ → ε → Bool} {P : σ → Prop} {s t : σ}

lemma Meets.left : (es : List ε) → {fs : List ε} → ∀ {s : σ}, Meets step cond s (es ++ fs) →
    Meets step cond s es
  | [], _, _, _ => trivial
  | _ :: es, _, _, ⟨hcond, hrest⟩ => ⟨hcond, fun t ht => Meets.left es (hrest t ht)⟩

lemma Meets.right : (es : List ε) → {fs : List ε} → ∀ {s t : σ}, Meets step cond s (es ++ fs) →
    Runs.run step s es = some t → Meets step cond t fs
  | [], _, _, _, h, hrun => by
    cases hrun
    exact h
  | _ :: es, _, _, _, ⟨_, hrest⟩, hrun => by
    obtain ⟨u, hu, hrun⟩ := Option.bind_eq_some_iff.mp hrun
    exact Meets.right es (hrest u hu) hrun

lemma Meets.append : (es : List ε) → {fs : List ε} → ∀ {s : σ}, Meets step cond s es →
    (∀ t, Runs.run step s es = some t → Meets step cond t fs) → Meets step cond s (es ++ fs)
  | [], _, s, _, h => h s rfl
  | e :: es, _, s, ⟨hcond, hrest⟩, h => ⟨hcond, fun t ht => Meets.append es (hrest t ht) fun u hu =>
    h u (by rw [Runs.run, ht]; exact hu)⟩

/-- **Each step is defined and keeps what holds**, so the run is and does. -/
theorem Meets.run (hstep : ∀ s e, P s → cond s e = true → ∃ t, step s e = some t ∧ P t) :
    (es : List ε) → ∀ {s : σ}, P s → Meets step cond s es → ∃ t, Runs.run step s es = some t ∧ P t
  | [], s, h, _ => ⟨s, rfl, h⟩
  | e :: es, s, h, ⟨hcond, hrest⟩ => by
    obtain ⟨t, ht, hP⟩ := hstep s e h hcond
    obtain ⟨u, hu, hP'⟩ := Meets.run hstep es hP (hrest t ht)
    exact ⟨u, by rw [Runs.run, ht]; exact hu, hP'⟩

/-- **Each step keeps what holds**, so a run does. -/
theorem Meets.of_run (hstep : ∀ s e t, P s → cond s e = true → step s e = some t → P t) :
    (es : List ε) → ∀ {s t : σ}, P s → Meets step cond s es → Runs.run step s es = some t → P t
  | [], s, t, h, _, hrun => by
    cases hrun
    exact h
  | e :: es, s, t, h, ⟨hcond, hrest⟩, hrun => by
    obtain ⟨u, hu, hrun⟩ := Option.bind_eq_some_iff.mp hrun
    exact Meets.of_run hstep es (hstep s e u h hcond hu) (hrest u hu) hrun

end Meets

end Nefarious.Lib.Runs

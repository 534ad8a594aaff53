import Nefarious.Resolver

/-!
# What is read from an answer

`proc_answer` goes from one answer record to the next.

Names: `ircd_res.c`.
-/

namespace Nefarious.Resolver

/-! ### Records -/

/-- Where the header of a record starts, behind its name. `proc_answer`. -/
def header (env : Env) (buf : ℕ → ℕ) (eob start : ℕ) : ℕ := start + (env.dnExpand buf eob start).1.toNat

/-- There is a record here whose name can be read and whose header is in the packet. `proc_answer`
(`ANSWER_FIXED_SIZE`). -/
def IsRecord (env : Env) (buf : ℕ → ℕ) (eob start : ℕ) : Prop :=
  start < eob ∧ 0 < (env.dnExpand buf eob start).1 ∧ header env buf eob start + 10 < eob

instance (env : Env) (buf : ℕ → ℕ) (eob start : ℕ) : Decidable (IsRecord env buf eob start) :=
  inferInstanceAs (Decidable (_ ∧ _ ∧ _))

/-- The type of a record. `proc_answer`. -/
def recType (env : Env) (buf : ℕ → ℕ) (eob start : ℕ) : ℕ := get16 buf (header env buf eob start)

/-- The length of its data. `proc_answer` (`rd_length`). -/
def recLength (env : Env) (buf : ℕ → ℕ) (eob start : ℕ) : ℕ := get16 buf (header env buf eob start + 8)

/-- Where its data starts. `proc_answer`. -/
def recData (env : Env) (buf : ℕ → ℕ) (eob start : ℕ) : ℕ := header env buf eob start + 10

/-- A record that is passed over: of another kind, or the first CNAME. `proc_answer`. -/
def Skipped (env : Env) (buf : ℕ → ℕ) (eob start : ℕ) (cname : Bool) : Prop :=
  IsRecord env buf eob start ∧ recType env buf eob start ≠ tA ∧ recType env buf eob start ≠ tAAAA ∧
    recType env buf eob start ≠ tPTR ∧ (recType env buf eob start = tCNAME → cname = false)

instance (env : Env) (buf : ℕ → ℕ) (eob start : ℕ) (cname : Bool) : Decidable (Skipped env buf eob start cname) :=
  inferInstanceAs (Decidable (_ ∧ _ ∧ _ ∧ _ ∧ _))

/-- Where the answers start. `proc_answer`. -/
def answersStart (env : Env) (reply : Reply) : ℕ := skipQuestions env reply.buf reply.eob reply.qdcount 12

/-- The walk over the answers: where an answer starts when all before it are passed over, and whether there was
a CNAME. `proc_answer`. -/
def walk (env : Env) (reply : Reply) (cname : Bool) : ℕ → Option (ℕ × Bool)
  | 0 => some (answersStart env reply, cname)
  | k + 1 => (walk env reply cname k).bind fun t =>
    if k < reply.ancount ∧ Skipped env reply.buf reply.eob t.1 t.2 then
      some (recData env reply.buf reply.eob t.1 + recLength env reply.buf reply.eob t.1,
        t.2 || recType env reply.buf reply.eob t.1 = tCNAME)
    else none

/-- An answer of the type of the request that is whole, and the request with its address or name. `proc_answer`. -/
inductive Stores (env : Env) (buf : ℕ → ℕ) (eob start : ℕ) (r : Reslist) : Reslist → Prop where
  | a (ht : recType env buf eob start = tA) (hr : r.type = tA) (hlen : recLength env buf eob start = 4)
      (hdata : recData env buf eob start + 4 ≤ eob) :
      Stores env buf eob start r { r with
        addr := [0, 0, 0, 0, 0, 0, get16 buf (recData env buf eob start), get16 buf (recData env buf eob start + 2)] }
  | aaaa (ht : recType env buf eob start = tAAAA) (hr : r.type = tAAAA) (hlen : recLength env buf eob start = 16)
      (hdata : recData env buf eob start + 16 ≤ eob) :
      Stores env buf eob start r { r with
        addr := (List.range 8).map fun i => get16 buf (recData env buf eob start + 2 * i) }
  | ptr (ht : recType env buf eob start = tPTR) (hr : r.type = tPTR)
      (hname : 0 < (env.dnExpand buf eob (recData env buf eob start)).1) :
      Stores env buf eob start r { r with
        name := some ((env.dnExpand buf eob (recData env buf eob start)).2.take hostlen) }

/-- **What a success should mean**: one of the answers was stored, and nothing else was changed but the state.
-/
def FromPacket (env : Env) (reply : Reply) (r r' : Reslist) : Prop :=
  ∃ k start cname state, walk env reply (decide (r.state = .cname)) k = some (start, cname) ∧ k < reply.ancount ∧
    IsRecord env reply.buf reply.eob start ∧ Stores env reply.buf reply.eob start { r with state := state } r'

/-- A walk that ends without one: there are no more answers, or no more data; a second CNAME has a name that can
be read; or the address of the type of the request is cut off. `proc_answer`. -/
def Lost (env : Env) (reply : Reply) (type k start : ℕ) (cname : Bool) : Prop :=
  reply.ancount ≤ k ∨ reply.eob ≤ start ∨
    (0 < (env.dnExpand reply.buf reply.eob start).1 ∧ reply.eob ≤ header env reply.buf reply.eob start + 10) ∨
    IsRecord env reply.buf reply.eob start ∧ ((recType env reply.buf reply.eob start = tCNAME ∧ cname = true ∧
        0 ≤ (env.dnExpand reply.buf reply.eob (recData env reply.buf reply.eob start)).1) ∨
      (recType env reply.buf reply.eob start = tA ∧ type = tA ∧ recLength env reply.buf reply.eob start = 4 ∧
        reply.eob < recData env reply.buf reply.eob start + 4) ∨
      (recType env reply.buf reply.eob start = tAAAA ∧ type = tAAAA ∧
        recLength env reply.buf reply.eob start = 16 ∧ reply.eob < recData env reply.buf reply.eob start + 16))

section
variable {env : Env} {reply : Reply} {r : Reslist} {k start : ℕ} {cname : Bool}

/-! ### Steps of the walk -/

lemma procAnswers_record {buf : ℕ → ℕ} {eob n : ℕ} (h : IsRecord env buf eob start) (r : Reslist) :
    procAnswers env buf eob (n + 1) start r =
      if recType env buf eob start = tA then
        if r.type ≠ tA ∨ recLength env buf eob start ≠ 4 then (false, r)
        else (true, { r with addr := [0, 0, 0, 0, 0, 0, get16 buf (recData env buf eob start),
          get16 buf (recData env buf eob start + 2)] })
      else if recType env buf eob start = tAAAA then
        if r.type ≠ tAAAA ∨ recLength env buf eob start ≠ 16 then (false, r)
        else (true, { r with addr := (List.range 8).map fun i => get16 buf (recData env buf eob start + 2 * i) })
      else if recType env buf eob start = tPTR then
        if r.type ≠ tPTR ∨ (env.dnExpand buf eob (recData env buf eob start)).1 ≤ 0 then (false, r)
        else (true, { r with name := some ((env.dnExpand buf eob (recData env buf eob start)).2.take hostlen) })
      else if recType env buf eob start = tCNAME then
        if r.state = .cname then (decide (0 ≤ (env.dnExpand buf eob (recData env buf eob start)).1), r)
        else procAnswers env buf eob n (recData env buf eob start + recLength env buf eob start)
          { r with state := .cname }
      else procAnswers env buf eob n (recData env buf eob start + recLength env buf eob start) r := by
  obtain ⟨hin, hname, hfits⟩ := h
  rw [procAnswers, if_neg (not_le.mpr hin)]
  dsimp only
  have hfits' : ¬ eob ≤ start + (env.dnExpand buf eob start).1.toNat + 10 := not_le.mpr hfits
  rw [if_neg (not_le.mpr hname), if_neg hfits']
  rfl

def passed (r : Reslist) (cname : Bool) : Reslist := { r with state := if cname then .cname else r.state }

lemma passed_start (r : Reslist) : passed r (decide (r.state = .cname)) = r := by
  unfold passed
  by_cases h : r.state = .cname
  · rw [decide_eq_true h, if_pos rfl, ← h]
  · rw [decide_eq_false h, if_neg Bool.false_ne_true]

lemma walk_succ {cname' : Bool} (h : walk env reply cname k = some (start, cname')) :
    walk env reply cname (k + 1) =
      if k < reply.ancount ∧ Skipped env reply.buf reply.eob start cname' then
        some (recData env reply.buf reply.eob start + recLength env reply.buf reply.eob start,
          cname' || recType env reply.buf reply.eob start = tCNAME)
      else none := by
  rw [walk, h]
  rfl

lemma walk_run (r : Reslist) : ∀ {k start cname}, walk env reply (decide (r.state = .cname)) k = some (start,
    cname) → k ≤ reply.ancount ∧ (cname = false → r.state ≠ .cname) ∧ procAnswer env r reply =
    procAnswers env reply.buf reply.eob (reply.ancount - k) start (passed r cname) := by
  intro k
  induction k with
  | zero =>
    intro start cname h
    obtain ⟨rfl, rfl⟩ := Prod.mk.inj (Option.some.inj h)
    refine ⟨Nat.zero_le _, fun hc => of_decide_eq_false hc, ?_⟩
    rw [passed_start]
    rfl
  | succ k ih =>
    intro start cname h
    cases hw : walk env reply (decide (r.state = .cname)) k with
    | none =>
      rw [walk, hw] at h
      cases h
    | some t =>
      obtain ⟨start₀, cname₀⟩ := t
      rw [walk_succ hw] at h
      by_cases hskip : k < reply.ancount ∧ Skipped env reply.buf reply.eob start₀ cname₀
      · rw [if_pos hskip] at h
        obtain ⟨rfl, rfl⟩ := Prod.mk.inj (Option.some.inj h)
        obtain ⟨hlt, hrec, hA, hAAAA, hPTR, hone⟩ := hskip
        obtain ⟨-, hstate, hrun⟩ := ih hw
        refine ⟨hlt, fun hc => hstate (Bool.or_eq_false_iff.mp hc).1, ?_⟩
        obtain ⟨n, hn⟩ : ∃ n, reply.ancount - k = n + 1 := ⟨reply.ancount - k - 1, by omega⟩
        have hn' : reply.ancount - (k + 1) = n := by omega
        rw [hrun, hn, hn', procAnswers_record hrec, if_neg hA, if_neg hAAAA, if_neg hPTR]
        by_cases hcname : recType env reply.buf reply.eob start₀ = tCNAME
        · have hfalse := hone hcname
          subst hfalse
          have hnot : (passed r false).state ≠ .cname := hstate rfl
          rw [if_pos hcname, if_neg hnot, decide_eq_true hcname]
          rfl
        · rw [if_neg hcname, decide_eq_false hcname, Bool.or_false]
      · rw [if_neg hskip] at h
        cases h

lemma walk_none {k' : ℕ} (h : walk env reply cname k = none) (hle : k ≤ k') : walk env reply cname k' =
    none := by
  induction hle with
  | refl => exact h
  | step _ ih =>
    rw [walk, ih]
    rfl

lemma walk_unique {k' start' : ℕ} {c c' : Bool} (h : walk env reply cname k = some (start, c))
    (h' : walk env reply cname k' = some (start', c'))
    (hstop : ¬ (k < reply.ancount ∧ Skipped env reply.buf reply.eob start c))
    (hstop' : ¬ (k' < reply.ancount ∧ Skipped env reply.buf reply.eob start' c')) : k = k' ∧ start = start' ∧
    c = c' := by
  have hnext := (walk_succ h).trans (if_neg hstop)
  have hnext' := (walk_succ h').trans (if_neg hstop')
  rcases Nat.lt_trichotomy k k' with hlt | rfl | hlt
  · exact absurd ((walk_none hnext hlt).symm.trans h') (Option.some_ne_none _).symm
  · obtain ⟨rfl, rfl⟩ := Prod.mk.inj (Option.some.inj (h.symm.trans h'))
    exact ⟨rfl, rfl, rfl⟩
  · exact absurd ((walk_none hnext' hlt).symm.trans h) (Option.some_ne_none _).symm

/-! ### How it ends -/

lemma not_skipped_of_stores {r' : Reslist} (h : Stores env reply.buf reply.eob start r r') (cname : Bool) :
    ¬ (k < reply.ancount ∧ Skipped env reply.buf reply.eob start cname) := by
  rintro ⟨-, -, hA, hAAAA, hPTR, -⟩
  cases h with
  | a ht => exact hA ht
  | aaaa ht => exact hAAAA ht
  | ptr ht => exact hPTR ht

lemma not_skipped_of_lost {type : ℕ} (h : Lost env reply type k start cname) :
    ¬ (k < reply.ancount ∧ Skipped env reply.buf reply.eob start cname) := by
  rintro ⟨hlt, ⟨hin, -, hfits⟩, hA, hAAAA, -, hone⟩
  rcases h with hend | hend | ⟨-, hend⟩ | ⟨-, ⟨ht, hc, -⟩ | ⟨ht, -⟩ | ⟨ht, -⟩⟩
  · exact absurd hlt (not_lt.mpr hend)
  · exact absurd hin (not_lt.mpr hend)
  · exact absurd hfits (not_lt.mpr hend)
  · exact absurd ((hone ht).symm.trans hc) Bool.false_ne_true
  · exact hA ht
  · exact hAAAA ht

lemma answer_ends (hw : walk env reply (decide (r.state = .cname)) k = some (start, cname))
    (hstop : ¬ (k < reply.ancount ∧ Skipped env reply.buf reply.eob start cname)) :
    Lost env reply r.type k start cname ∨ (procAnswer env r reply).1 = false ∨
      FromPacket env reply r (procAnswer env r reply).2 := by
  obtain ⟨-, hstate, hrun⟩ := walk_run r hw
  by_cases hk : reply.ancount ≤ k
  · exact .inl (Or.inl hk)
  obtain ⟨n, hn⟩ : ∃ n, reply.ancount - k = n + 1 := ⟨reply.ancount - k - 1, by omega⟩
  rw [hn] at hrun
  by_cases hin : reply.eob ≤ start
  · exact .inl (Or.inr (Or.inl hin))
  by_cases hname : (env.dnExpand reply.buf reply.eob start).1 ≤ 0
  · refine .inr (Or.inl ?_)
    rw [hrun, procAnswers, if_neg hin]
    dsimp only
    rw [if_pos hname]
  by_cases hfits : reply.eob ≤ header env reply.buf reply.eob start + 10
  · exact .inl (Or.inr (Or.inr (Or.inl ⟨not_le.mp hname, hfits⟩)))
  have hrec : IsRecord env reply.buf reply.eob start := ⟨not_le.mp hin, not_le.mp hname, not_le.mp hfits⟩
  have hlost : _ → Lost env reply r.type k start cname := fun h => Or.inr (Or.inr (Or.inr ⟨hrec, h⟩))
  have hstored : ∀ r', Stores env reply.buf reply.eob start (passed r cname) r' → procAnswer env r reply = (true, r') →
      FromPacket env reply r (procAnswer env r reply).2 := by
    intro r' hr' hres
    rw [hres]
    exact ⟨k, start, cname, _, hw, not_le.mp hk, hrec, hr'⟩
  rw [procAnswers_record hrec] at hrun
  by_cases hA : recType env reply.buf reply.eob start = tA
  · rw [if_pos hA] at hrun
    by_cases hbad : r.type ≠ tA ∨ recLength env reply.buf reply.eob start ≠ 4
    · exact .inr (Or.inl (congrArg Prod.fst (hrun.trans (if_pos hbad))))
    · obtain ⟨hr, hlen⟩ := not_or.mp hbad
      by_cases hdata : recData env reply.buf reply.eob start + 4 ≤ reply.eob
      · exact .inr (Or.inr (hstored _ (.a hA (not_not.mp hr) (not_not.mp hlen) hdata) (hrun.trans (if_neg hbad))))
      · exact .inl (hlost (Or.inr (Or.inl ⟨hA, not_not.mp hr, not_not.mp hlen, not_le.mp hdata⟩)))
  rw [if_neg hA] at hrun
  by_cases hAAAA : recType env reply.buf reply.eob start = tAAAA
  · rw [if_pos hAAAA] at hrun
    by_cases hbad : r.type ≠ tAAAA ∨ recLength env reply.buf reply.eob start ≠ 16
    · exact .inr (Or.inl (congrArg Prod.fst (hrun.trans (if_pos hbad))))
    · obtain ⟨hr, hlen⟩ := not_or.mp hbad
      by_cases hdata : recData env reply.buf reply.eob start + 16 ≤ reply.eob
      · exact .inr (Or.inr (hstored _ (.aaaa hAAAA (not_not.mp hr) (not_not.mp hlen) hdata)
          (hrun.trans (if_neg hbad))))
      · exact .inl (hlost (Or.inr (Or.inr ⟨hAAAA, not_not.mp hr, not_not.mp hlen, not_le.mp hdata⟩)))
  rw [if_neg hAAAA] at hrun
  by_cases hPTR : recType env reply.buf reply.eob start = tPTR
  · rw [if_pos hPTR] at hrun
    by_cases hbad : r.type ≠ tPTR ∨ (env.dnExpand reply.buf reply.eob (recData env reply.buf reply.eob start)).1 ≤ 0
    · exact .inr (Or.inl (congrArg Prod.fst (hrun.trans (if_pos hbad))))
    · obtain ⟨hr, hhost⟩ := not_or.mp hbad
      exact .inr (Or.inr (hstored _ (.ptr hPTR (not_not.mp hr) (not_le.mp hhost)) (hrun.trans (if_neg hbad))))
  rw [if_neg hPTR] at hrun
  by_cases hCNAME : recType env reply.buf reply.eob start = tCNAME
  · cases cname with
    | false => exact absurd ⟨not_le.mp hk, hrec, hA, hAAAA, hPTR, fun _ => rfl⟩ hstop
    | true =>
      have hstate : (passed r true).state = .cname := rfl
      rw [if_pos hCNAME, if_pos hstate] at hrun
      by_cases hhost : 0 ≤ (env.dnExpand reply.buf reply.eob (recData env reply.buf reply.eob start)).1
      · exact .inl (hlost (Or.inl ⟨hCNAME, rfl, hhost⟩))
      · exact .inr (Or.inl ((congrArg Prod.fst hrun).trans (decide_eq_false hhost)))
  · exact absurd ⟨not_le.mp hk, hrec, hA, hAAAA, hPTR, fun h => absurd h hCNAME⟩ hstop

lemma outcome (env : Env) (reply : Reply) (r : Reslist) : (∃ k start cname, walk env reply (decide (r.state =
    .cname)) k = some (start, cname) ∧ Lost env reply r.type k start cname) ∨ (procAnswer env r reply).1 =
    false ∨ FromPacket env reply r (procAnswer env r reply).2 := by
  have hgo : ∀ n k start cname, reply.ancount - k = n →
      walk env reply (decide (r.state = .cname)) k = some (start, cname) →
      (∃ k start cname, walk env reply (decide (r.state = .cname)) k = some (start, cname) ∧
        Lost env reply r.type k start cname) ∨ (procAnswer env r reply).1 = false ∨
          FromPacket env reply r (procAnswer env r reply).2 := by
    intro n
    induction n with
    | zero =>
      intro k start cname hn hw
      exact .inl ⟨k, start, cname, hw, Or.inl (by omega)⟩
    | succ n ih =>
      intro k start cname hn hw
      by_cases hskip : k < reply.ancount ∧ Skipped env reply.buf reply.eob start cname
      · exact ih (k + 1) _ _ (by omega) ((walk_succ hw).trans (if_pos hskip))
      · exact (answer_ends hw hskip).imp_left fun hlost => ⟨k, start, cname, hw, hlost⟩
  exact hgo _ 0 _ _ rfl rfl

lemma lost_success (hw : walk env reply (decide (r.state = .cname)) k = some (start, cname))
    (h : Lost env reply r.type k start cname) : (procAnswer env r reply).1 = true := by
  obtain ⟨-, hstate, hrun⟩ := walk_run r hw
  rw [hrun]
  by_cases hk : reply.ancount ≤ k
  · rw [Nat.sub_eq_zero_of_le hk]
    rfl
  obtain ⟨n, hn⟩ : ∃ n, reply.ancount - k = n + 1 := ⟨reply.ancount - k - 1, by omega⟩
  rw [hn]
  by_cases hin : reply.eob ≤ start
  · rw [procAnswers, if_pos hin]
  rcases (h.resolve_left hk).resolve_left hin with ⟨hname, hfits⟩ | ⟨hrec, hcase⟩
  · rw [procAnswers, if_neg hin]
    dsimp only
    rw [if_neg (not_le.mpr hname)]
    exact congrArg Prod.fst (if_pos hfits)
  · rw [procAnswers_record hrec]
    rcases hcase with ⟨ht, rfl, hhost⟩ | ⟨ht, hr, hlen, -⟩ | ⟨ht, hr, hlen, -⟩
    · have hstate : (passed r true).state = .cname := rfl
      rw [ht, if_neg (by decide), if_neg (by decide), if_neg (by decide), if_pos rfl, if_pos hstate]
      exact decide_eq_true hhost
    · have hgood : ¬ ((passed r cname).type ≠ tA ∨ recLength env reply.buf reply.eob start ≠ 4) :=
        not_or.mpr ⟨not_not.mpr hr, not_not.mpr hlen⟩
      rw [if_pos ht, if_neg hgood]
    · have hgood : ¬ ((passed r cname).type ≠ tAAAA ∨ recLength env reply.buf reply.eob start ≠ 16) :=
        not_or.mpr ⟨not_not.mpr hr, not_not.mpr hlen⟩
      rw [ht, if_neg (by decide), if_pos rfl, if_neg hgood]

lemma lost_not_stored {r' : Reslist} (hw : walk env reply (decide (r.state = .cname)) k = some (start, cname))
    (h : Lost env reply r.type k start cname) : ¬ FromPacket env reply r r' := by
  rintro ⟨k', start', cname', state, hw', hlt, ⟨hin, hname, hfits⟩, hstores⟩
  obtain ⟨rfl, rfl, rfl⟩ := walk_unique hw hw' (not_skipped_of_lost h) (not_skipped_of_stores hstores cname')
  rcases h with hend | hend | ⟨-, hend⟩ | ⟨-, ⟨ht, -⟩ | ⟨ht, -, -, hcut⟩ | ⟨ht, -, -, hcut⟩⟩
  · exact absurd hlt (not_lt.mpr hend)
  · exact absurd hin (not_lt.mpr hend)
  · exact absurd hfits (not_lt.mpr hend)
  all_goals
    cases hstores with
    | a ht' _ _ hdata => first | exact absurd (ht.symm.trans ht') (by decide) | exact absurd hdata (not_le.mpr hcut)
    | aaaa ht' _ _ hdata =>
      first | exact absurd (ht.symm.trans ht') (by decide) | exact absurd hdata (not_le.mpr hcut)
    | ptr ht' => exact absurd (ht.symm.trans ht') (by decide)

end

/-- **A success means that something was stored**, exactly when the walk over the answers is not lost. -/
theorem stored_iff (env : Env) (reply : Reply) (r : Reslist) : ((procAnswer env r reply).1 = true →
    FromPacket env reply r (procAnswer env r reply).2) ↔ ∀ k start cname, walk env reply (decide (r.state =
    .cname)) k = some (start, cname) → ¬ Lost env reply r.type k start cname := by
  constructor
  · intro hgood k start cname hw hlost
    exact lost_not_stored hw hlost (hgood (lost_success hw hlost))
  · intro hnever hsuccess
    rcases outcome env reply r with ⟨k, start, cname, hw, hlost⟩ | hfail | hstored
    · exact absurd hlost (hnever k start cname hw)
    · exact absurd (hfail.symm.trans hsuccess) Bool.false_ne_true
    · exact hstored

/-- A system whose names are a single zero byte. `ircd_reslib.c` `irc_dn_expand`. -/
def rootNames : Env where
  resRetries := 2
  resTimeout := 4
  ircDomain := []
  ipv6 := true
  mkquery := fun _ _ => true
  dnExpand := fun _ _ _ => (1, [])
  dnSkipname := fun _ _ _ => 1

/-- An answer to no question with one CNAME, to the root. `res.h` `HEADER`. -/
def cnameReply : Reply := ⟨7, 0, 0, 1, fun i => if i = 14 then 5 else if i = 22 then 1 else 0, 24⟩

/-- A request for the address of a name. `do_query_name`. -/
def addressRequest : Reslist := ⟨7, 1, .a, tA, 2, 1, true, 0, 4, List.replicate 8 0, some "host".toList, 0, 0⟩

/-- **A CNAME alone is a success**, without an address. -/
theorem only_cname : (procAnswer rootNames addressRequest cnameReply).1 = true ∧
    ¬ FromPacket rootNames cnameReply addressRequest (procAnswer rootNames addressRequest cnameReply).2 := by
  have hw : walk rootNames cnameReply (decide (addressRequest.state = .cname)) 1 = some (24, true) := by decide
  have hlost : Lost rootNames cnameReply addressRequest.type 1 24 true := Or.inl le_rfl
  exact ⟨lost_success hw hlost, lost_not_stored hw hlost⟩

end Nefarious.Resolver

import Nefarious.Channel.ModeText
import Nefarious.Channel.ModeWalk

/-!
# Net riders

When a channel of a burst is older than the one here, members who could not have joined it are kicked.
-/

namespace Nefarious.Channel

open List (append_assoc append_nil cons_append map_append map_cons map_singleton mem_append mem_cons
  mem_cons_self not_mem_nil singleton_append)

/-- The restrictions that are reported. `m_burst.c` `netride_modes` (`result`). -/
structure NetRide where
  inviteonly : Bool
  /-- `MODE_KEY`: another key than ours. -/
  key : Bool
  regonly : Bool
  deriving DecidableEq

/-- What the small parser returns. `m_burst.c` `netride_modes`. -/
inductive NetRideResult
  | found (r : NetRide)
  /-- The modes are not those of a burst. -/
  | invalid
  /-- The key is read behind the last argument. -/
  | null
  deriving DecidableEq

/-- Look for restrictions, with those found so far. `m_burst.c`. -/
def netrideModes (currKey : Str) : Str → List Str → NetRide → NetRideResult
  | [], _, r => .found r
  | ch :: modes, args, r =>
    if ch = '-' then .invalid
    else if ch = 'i' then netrideModes currKey modes args { r with inviteonly := true }
    else if ch = 'k' then
      match args with
      | [] => .null
      | key :: args => netrideModes currKey modes args { r with key := r.key || currKey != key }
    else if ch = 'l' then netrideModes currKey modes (args.drop 1) r
    else if ch = 'r' then netrideModes currKey modes args { r with regonly := true }
    else netrideModes currKey modes args r

lemma netrideModes_plain (currKey : Str) {ls : Str} (h : ∀ ch ∈ ls, ch ≠ '-' ∧ ch ≠ 'k' ∧ ch ≠ 'l')
    (more : Str) (args : List Str) : ∀ r : NetRide, netrideModes currKey (ls ++ more) args r =
      netrideModes currKey more args
        ⟨r.inviteonly || decide ('i' ∈ ls), r.key, r.regonly || decide ('r' ∈ ls)⟩ := by
  induction ls with
  | nil =>
    intro r
    simp
  | cons ch ls ih =>
    intro r
    obtain ⟨hminus, hkey, hlimit⟩ := h ch mem_cons_self
    have ih := ih fun c hc => h c (List.mem_cons_of_mem ch hc)
    rw [cons_append, netrideModes.eq_def]
    simp only
    rw [if_neg hminus, if_neg hkey, if_neg hlimit, ih, ih, ih]
    by_cases hi : ch = 'i'
    · simp [hi]
    · by_cases hr : ch = 'r'
      · simp [hr]
      · simp [hi, hr, Ne.symm hi, Ne.symm hr]

lemma mem_letter {p : Prop} [Decidable p] {a ch : Char} {s : Str} :
    ch ∈ (if p then [a] else s) ↔ (p ∧ ch = a) ∨ (¬p ∧ ch ∈ s) := by
  by_cases hp : p <;> simp [hp]

lemma plainModes_letters (cptr : Viewer) (c : Chan) :
    (∀ ch ∈ plainModes cptr c, ch ≠ '-' ∧ ch ≠ 'k' ∧ ch ≠ 'l') ∧
      ('i' ∈ plainModes cptr c ↔ .inviteonly ∈ c.mode) ∧ ('r' ∈ plainModes cptr c ↔ .regonly ∈ c.mode) := by
  unfold plainModes
  simp only [mem_append, mem_letter, not_mem_nil, and_false, or_false]
  refine ⟨fun ch hch => ?_, ?_, ?_⟩
  · refine ⟨?_, ?_, ?_⟩ <;> (rintro rfl; simp at hch)
  · simp
  · simp

lemma passParams_letters (cptr : Viewer) (c : Chan) (member : Option Membership) :
    ∀ ch ∈ (passParams cptr c member).map Prod.fst, ch = 'A' ∨ ch = 'U' := by
  have hopt : ∀ (o : Option ModeString) (a : Char) (f : ModeString → Str) (ch : Char),
      ch ∈ ((if cptr.seesPasses = true then (o.map fun t => (a, f t)).toList else []).map Prod.fst) → ch = a := by
    intro o a f ch hch
    cases o <;> cases hs : cptr.seesPasses <;> simp [hs] at hch
    exact hch
  intro ch hch
  rw [passParams, map_append, mem_append] at hch
  exact hch.imp (hopt _ _ _ ch) (hopt _ _ _ ch)

lemma keptParams_append (buflen : ℕ) (ts : List Str) : ∀ ws, ∃ more, keptParams buflen ws ts =
    ws ++ more := by
  induction ts with
  | nil => exact fun ws => ⟨[], (append_nil ws).symm⟩
  | cons t ts ih =>
    intro ws
    rw [keptParams]
    split
    · obtain ⟨more, hmore⟩ := ih (ws ++ [t])
      exact ⟨t :: more, by rw [hmore, append_assoc, singleton_append]⟩
    · exact ih ws

lemma channelModes_key {cptr : Viewer} {c : Chan} {key : ModeString} (hserver : cptr.server = true)
    (hkey : c.key = some key) (hlen : key.text.length ≤ keyLen) (hredir : c.redir = none) :
    ∃ more, parseParams maxPara (channelModes cptr modebufLen c none).2
        = (limitParam c).map Prod.snd ++ key.text :: more ∧
      (channelModes cptr modebufLen c none).1 = '+' :: plainModes cptr c ++ (limitParam c).map Prod.fst
        ++ 'k' :: (passParams cptr c none).map Prod.fst := by
  have htext : keyText cptr c key = key.text := by
    rw [keyText, hserver]
    simp
  have hstring : stringParams cptr c none = ('k', key.text) :: passParams cptr c none := by
    rw [stringParams, hkey, hredir, Option.map_none, Option.map_some, htext]
    rfl
  have hroom : (joined ((limitParam c).map Prod.snd)).length + key.text.length + 2 < modebufLen := by
    have hlimit : (joined ((limitParam c).map Prod.snd)).length ≤ 10 := by
      have hdigits := length_limit_le c
      unfold limitParam
      split
      · simpa [joined] using hdigits
      · exact Nat.zero_le 10
    rw [keyLen] at hlen
    rw [modebufLen]
    omega
  obtain ⟨more, hmore⟩ := keptParams_append modebufLen ((passParams cptr c none).map Prod.snd)
    ((limitParam c).map Prod.snd ++ [key.text])
  refine ⟨more, ?_, ?_⟩
  · rw [channelModes_words, hstring, map_cons, keptParams, if_pos hroom, hmore, append_assoc, singleton_append]
  · rw [channelModes_texts, modeParams, hstring, map_append, map_cons]
    simp only [append_assoc]

lemma netrideModes_limit (currKey : Str) (c : Chan) (more : Str) (args : List Str) (r : NetRide) :
    netrideModes currKey ((limitParam c).map Prod.fst ++ more) ((limitParam c).map Prod.snd ++ args) r
      = netrideModes currKey more args r := by
  unfold limitParam
  split
  · rw [map_singleton, map_singleton, singleton_append, singleton_append, netrideModes.eq_def]
    simp
  · rfl

lemma restArgs_plain {ls : Str} (h : ∀ ch ∈ ls, takesArg .add ch = false ∧ ch ≠ '-') (more : Str)
    (args : List Str) : restArgs .add (ls ++ more) args = restArgs .add more args := by
  induction ls with
  | nil => rfl
  | cons ch ls ih =>
    obtain ⟨htakes, hminus⟩ := h ch mem_cons_self
    have ih := ih fun c hc => h c (List.mem_cons_of_mem ch hc)
    rw [cons_append, restArgs, if_neg hminus, htakes]
    split
    · exact ih
    · exact ih

lemma split_unique {k : Char} {p q a b : Str} (hp : k ∉ p) (hq : k ∉ q) (h : p ++ k :: q = a ++ k :: b) :
    a = p := by
  obtain ⟨m, rfl, hm⟩ | ⟨m, rfl, hm⟩ := List.append_eq_append_iff.mp h
  · cases m with
    | nil => exact append_nil p
    | cons c m =>
      obtain ⟨-, rfl⟩ := List.cons.inj hm
      exact absurd (by simp) hq
  · cases m with
    | nil => exact (append_nil a).symm
    | cons c m =>
      obtain ⟨rfl, -⟩ := List.cons.inj hm
      exact absurd (by simp) hp

lemma mem_limitParam {c : Chan} {ch : Char} (h : ch ∈ (limitParam c).map Prod.fst) : ch = 'l' := by
  unfold limitParam at h
  split at h
  · exact List.mem_singleton.mp h
  · exact absurd h not_mem_nil

lemma channelModes_keyless {cptr : Viewer} {c : Chan} (hkey : c.key = none) :
    ∃ ls, (channelModes cptr modebufLen c none).1 = '+' :: plainModes cptr c ++ ls ∧
      ∀ ch ∈ ls, ch = 'l' ∨ ch = 'L' ∨ ch = 'A' ∨ ch = 'U' := by
  rw [channelModes_texts]
  refine ⟨_, rfl, fun ch hch => ?_⟩
  rw [modeParams, map_append, mem_append] at hch
  obtain hch | hch := hch
  · exact .inl (mem_limitParam hch)
  · rw [stringParams, hkey, map_append, mem_append] at hch
    obtain hch | hch := hch
    · cases hredir : c.redir with
      | none =>
        rw [hredir] at hch
        exact absurd hch not_mem_nil
      | some redir =>
        rw [hredir] at hch
        exact .inr (.inl (List.mem_singleton.mp hch))
    · exact .inr (.inr (passParams_letters cptr c none ch hch))

lemma netrideModes_keyless (currKey : Str) {ls : Str}
    (h : ∀ ch ∈ ls, ch = 'l' ∨ ch = 'L' ∨ ch = 'A' ∨ ch = 'U') : ∀ (args : List Str) (r : NetRide),
    netrideModes currKey ls args r = .found r := by
  induction ls with
  | nil => exact fun _ _ => rfl
  | cons ch ls ih =>
    intro args r
    have ih := ih fun c hc => h c (List.mem_cons_of_mem ch hc)
    rw [netrideModes.eq_def]
    obtain rfl | rfl | rfl | rfl := h ch mem_cons_self <;> simp [ih]

/-- **The small parser reports an invite-only and a registered-only channel and another key, and takes for the
key what `mode_parse` takes for it**, in a burst of a channel that does not have both a key and a redirect. -/
theorem netrideModes_agrees {cptr : Viewer} (hserver : cptr.server = true) {c : Chan}
    (hlen : ∀ key ∈ c.key, key.text.length ≤ keyLen) (hone : c.key = none ∨ c.redir = none)
    (rest : List Str) (currKey : Str) :
    netrideModes currKey (channelModes cptr modebufLen c none).1
        (parseParams maxPara (channelModes cptr modebufLen c none).2 ++ rest) ⟨false, false, false⟩
      = .found ⟨.inviteonly ∈ c.mode, c.key.any fun key => currKey ≠ key.text, .regonly ∈ c.mode⟩ ∧
    ∀ a b, (channelModes cptr modebufLen c none).1 = a ++ 'k' :: b →
      ∀ (env : ParseEnv) (st st' : ParseState), env.sptr.myUser = false → env.cptrServer = true →
        st.dir = .add → st.args = parseParams maxPara (channelModes cptr modebufLen c none).2 ++ rest →
          modeParseLetters env a st = some st' → st'.args.head? = c.key.map ModeString.text := by
  obtain ⟨hletters, hinvite, hreg⟩ := plainModes_letters cptr c
  have hplus : ∀ ch ∈ '+' :: plainModes cptr c, ch ≠ '-' ∧ ch ≠ 'k' ∧ ch ≠ 'l' := by
    intro ch hch
    obtain rfl | hch := mem_cons.mp hch
    · decide
    · exact hletters ch hch
  have hinvite' : 'i' ∈ '+' :: plainModes cptr c ↔ .inviteonly ∈ c.mode := by simp [hinvite]
  have hreg' : 'r' ∈ '+' :: plainModes cptr c ↔ .regonly ∈ c.mode := by simp [hreg]
  have htakes : ∀ ch ∈ '+' :: plainModes cptr c, takesArg .add ch = false ∧ ch ≠ '-' := by
    intro ch hch
    refine ⟨?_, (hplus ch hch).1⟩
    obtain rfl | hch := mem_cons.mp hch
    · decide
    · exact takesArg_plainModes cptr c ch hch
  cases hkey : c.key with
  | none =>
    obtain ⟨ls, heq, hls⟩ := @channelModes_keyless cptr c hkey
    rw [heq]
    constructor
    · rw [netrideModes_plain currKey hplus, netrideModes_keyless currKey hls]
      simp [hinvite', hreg']
    · intro a b hsplit
      exfalso
      have hmem : 'k' ∈ '+' :: plainModes cptr c ++ ls := by
        rw [hsplit]
        simp
      obtain hmem | hmem := mem_append.mp hmem
      · exact (hplus 'k' hmem).2.1 rfl
      · exact absurd (hls 'k' hmem) (by decide)
  | some key =>
    obtain ⟨more, hwords, heq⟩ := channelModes_key hserver hkey (hlen key hkey)
      (hone.resolve_left (by rw [hkey]; exact Option.some_ne_none key))
    have hpass := passParams_letters cptr c none
    rw [heq, hwords, append_assoc, append_assoc, cons_append, cons_append]
    constructor
    · rw [← cons_append]
      refine (netrideModes_plain currKey hplus _ _ _).trans ?_
      rw [netrideModes_limit, netrideModes.eq_def]
      simp only [Char.reduceEq, if_false, if_true]
      rw [netrideModes_keyless currKey fun ch hch => .inr (.inr (hpass ch hch))]
      simp only [hinvite', hreg', Bool.false_or, Option.any_some]
      refine congrArg (fun key => NetRideResult.found ⟨_, key, _⟩) ?_
      rw [Bool.eq_iff_iff]
      simp
    · intro a b hsplit env st st' hmy hsrv hdir hargs hrun
      have ha : a = '+' :: plainModes cptr c ++ (limitParam c).map Prod.fst := by
        refine split_unique (q := (passParams cptr c none).map Prod.fst) (k := 'k') (b := b) ?_ ?_ ?_
        · intro hmem
          obtain hmem | hmem := mem_append.mp hmem
          · exact (hplus 'k' hmem).2.1 rfl
          · exact absurd (mem_limitParam hmem) (by decide)
        · intro hmem
          exact absurd (hpass 'k' hmem) (by decide)
        · rw [← hsplit]
          simp only [append_assoc, cons_append]
      have hlimit : restArgs .add ((limitParam c).map Prod.fst)
          ((limitParam c).map Prod.snd ++ key.text :: (more ++ rest)) = (.add, key.text :: (more ++ rest)) := by
        unfold limitParam
        split
        · rw [map_singleton, map_singleton, singleton_append, restArgs]
          simp [takesArg, restArgs]
        · rfl
      have hrest := modeParseLetters_args hmy hsrv hrun
      rw [hdir, hargs, ha, restArgs_plain htakes, hlimit] at hrest
      rw [(Prod.mk.inj hrest).2]
      rfl

def peer : Viewer := ⟨"AC".toList, false, true, false, true⟩

def keyed (limit : UInt32) (redir : Option ModeString) : Chan :=
  { redirecting longName with limit := limit, redir := redir, key := some ⟨"sesame".toList, by decide, by decide⟩ }

theorem netrideModes_agrees_limit :
    netrideModes "other".toList (channelModes peer modebufLen (keyed 5 none) none).1
        (parseParams maxPara (channelModes peer modebufLen (keyed 5 none) none).2 ++ []) ⟨false, false, false⟩
      = .found ⟨false, true, false⟩ := by
  have h := (@netrideModes_agrees peer rfl (keyed 5 none) (by decide) (.inr rfl) [] "other".toList).1
  exact h.trans (by decide)

/-- **A limit is not reported, and behind a redirect the key is not read**: the modes `+l 5` are found to
restrict nobody, and of `+Lk #d sesame` the small parser takes `#d` for the key. -/
theorem netride_limit_redirect : (¬ ∀ (cptr : Viewer) (c : Chan) (currKey : Str), cptr.server = true →
      netrideModes currKey (channelModes cptr modebufLen c none).1
          (parseParams maxPara (channelModes cptr modebufLen c none).2) ⟨false, false, false⟩
        = .found ⟨false, false, false⟩ → 'l' ∉ (channelModes cptr modebufLen c none).1) ∧
    ¬ ∀ (cptr : Viewer) (c : Chan) (currKey : Str), cptr.server = true →
      netrideModes currKey (channelModes cptr modebufLen c none).1
          (parseParams maxPara (channelModes cptr modebufLen c none).2) ⟨false, false, false⟩
        = .found ⟨.inviteonly ∈ c.mode, c.key.any fun key => currKey ≠ key.text, .regonly ∈ c.mode⟩ := by
  constructor
  · intro h
    have hlimit := h peer { redirecting longName with limit := 5, redir := none } [] rfl
    revert hlimit
    decide +kernel
  · intro h
    have hkey := h peer (keyed 0 (some ⟨"#d".toList, by decide, by decide⟩)) "sesame".toList rfl
    revert hkey
    decide +kernel

end Nefarious.Channel

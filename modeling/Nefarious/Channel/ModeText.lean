import Nefarious.Channel.ModeLine
import Nefarious.Channel.ModeParse

/-!
# The modes of a channel as a text

The modes of a channel are written into two buffers: the letters into one, and the parameters of the letters
that have one into another.

Names: `channel.c`.
-/

namespace Nefarious.Channel

open List (append_cons append_nil length_append map_append map_cons mem_singleton not_mem_nil)

/-! ### The buffers -/

/-- The size of the buffers. `channel.h`. -/
def modebufLen : ℕ := 200

/-- Whom the modes are written for. `channel_modes` (`cptr`). -/
structure Viewer where
  numnick : Str
  myUser : Bool
  server : Bool
  oper : Bool
  opLevels : Bool

/-- `is_chan_op`. -/
def Chan.isChanOp (c : Chan) (user : Str) : Bool :=
  (c.findMember user).any fun m => .zombie ∉ m.status ∧ .chanop ∈ m.status

/-- Append a mode parameter to the parameter buffer; the flag says that there is one already. -/
def appendModeParam (pbuf : Str) (buflen : ℕ) (param : Str) (prevParam : Bool) : Str × Bool :=
  if pbuf.length + param.length + 2 < buflen then
    ((if prevParam then pbuf ++ [' '] else pbuf) ++ param, true)
  else (pbuf, prevParam)

/-- The two buffers. `channel_modes`. -/
structure ModeText where
  mbuf : Str
  /-- `pbuf`, up to `pbuf_pos`. -/
  pbuf : Str
  /-- `previous_parameter`. -/
  prevParam : Bool

/-- A letter and its parameter. `channel_modes`. -/
def ModeText.append (b : ModeText) (buflen : ℕ) (p : Char × Str) : ModeText :=
  let r := appendModeParam b.pbuf buflen p.2 b.prevParam
  ⟨b.mbuf ++ [p.1], r.1, r.2⟩

/-- The letters of the modes without a parameter. `channel_modes`. -/
def plainModes (cptr : Viewer) (c : Chan) : Str :=
  (if .secret ∈ c.mode then ['s'] else if .priv ∈ c.mode then ['p'] else [])
    ++ (if .moderated ∈ c.mode then ['m'] else [])
    ++ (if .topiclimit ∈ c.mode then ['t'] else [])
    ++ (if .inviteonly ∈ c.mode then ['i'] else [])
    ++ (if .noprivmsgs ∈ c.mode then ['n'] else [])
    ++ (if .regonly ∈ c.mode then ['r'] else [])
    ++ (if .deljoins ∈ c.mode then ['D'] else if cptr.myUser ∧ .wasdeljoins ∈ c.mode then ['d'] else [])
    ++ (if .registered ∈ c.mode then ['R'] else [])
    ++ (if .adminonly ∈ c.exmode then ['a'] else [])
    ++ (if .operonly ∈ c.exmode then ['O'] else [])
    ++ (if .regmoderated ∈ c.exmode then ['M'] else [])
    ++ (if .nonotices ∈ c.exmode then ['N'] else [])
    ++ (if .persist ∈ c.exmode then ['z'] else [])
    ++ (if .sslonly ∈ c.exmode then ['Z'] else [])
    ++ (if .noquitparts ∈ c.exmode then ['Q'] else [])
    ++ (if .noctcps ∈ c.exmode then ['C'] else [])
    ++ (if .nomultitarg ∈ c.exmode then ['T'] else [])
    ++ (if .nocolor ∈ c.exmode then ['c'] else [])
    ++ (if .stripcolor ∈ c.exmode then ['S'] else [])

/-- What stands for the key. `channel_modes`. -/
def keyText (cptr : Viewer) (c : Chan) (key : ModeString) : Str :=
  if c.isChanOp cptr.numnick || cptr.server || cptr.oper then key.text else ['*']

/-- What stands for the admin password. `channel_modes`. -/
def apassText (cptr : Viewer) (apass : ModeString) : Str :=
  if cptr.server || cptr.oper then apass.text else ['*']

/-- What stands for the user password. `channel_modes`. -/
def upassText (cptr : Viewer) (member : Option Membership) (upass : ModeString) : Str :=
  if cptr.server || member.any (fun m => .chanop ∈ m.status ∧ m.oplevel = 0) || cptr.oper then upass.text
  else ['*']

/-- The passwords are not written for a server that has no op-levels. `channel_modes`. -/
def Viewer.seesPasses (cptr : Viewer) : Bool := cptr.opLevels || !cptr.server

/-- Fill the buffers with the modes of a channel as they are visible for someone. -/
def channelModes (cptr : Viewer) (buflen : ℕ) (c : Chan) (member : Option Membership) : Str × Str :=
  let b : ModeText := ⟨'+' :: plainModes cptr c, [], false⟩
  let b :=
    if c.limit ≠ 0 then ⟨b.mbuf ++ ['l'], (digits c.limit.toNat).take (buflen - 1), true⟩ else b
  let b := match c.redir with
    | some redir => b.append buflen ('L', redir.text)
    | none => b
  let b := match c.key with
    | some key => b.append buflen ('k', keyText cptr c key)
    | none => b
  let b := match c.apass with
    | some apass => if cptr.seesPasses then b.append buflen ('A', apassText cptr apass) else b
    | none => b
  let b := match c.upass with
    | some upass => if cptr.seesPasses then b.append buflen ('U', upassText cptr member upass) else b
    | none => b
  (b.mbuf, b.pbuf)

/-! ### The parameters -/

/-- The parameter of a letter. `channel_modes`. -/
def modeParam (cptr : Viewer) (c : Chan) (member : Option Membership) (ch : Char) : Str :=
  if ch = 'l' then digits c.limit.toNat
  else if ch = 'L' then optText c.redir
  else if ch = 'k' then (c.key.map (keyText cptr c)).getD []
  else if ch = 'A' then (c.apass.map (apassText cptr)).getD []
  else (c.upass.map (upassText cptr member)).getD []

/-- The limit with its letter. `channel_modes`. -/
def limitParam (c : Chan) : List (Char × Str) := if c.limit ≠ 0 then [('l', digits c.limit.toNat)] else []

/-- The passwords with their letters. `channel_modes`. -/
def passParams (cptr : Viewer) (c : Chan) (member : Option Membership) : List (Char × Str) :=
  (if cptr.seesPasses then (c.apass.map fun t => ('A', apassText cptr t)).toList else [])
    ++ (if cptr.seesPasses then (c.upass.map fun t => ('U', upassText cptr member t)).toList else [])

/-- The letters with a parameter but for the limit, and their parameters. `channel_modes`. -/
def stringParams (cptr : Viewer) (c : Chan) (member : Option Membership) : List (Char × Str) :=
  (c.redir.map fun t => ('L', t.text)).toList ++ (c.key.map fun t => ('k', keyText cptr c t)).toList
    ++ passParams cptr c member

/-- All of them. `channel_modes`. -/
def modeParams (cptr : Viewer) (c : Chan) (member : Option Membership) : List (Char × Str) :=
  limitParam c ++ stringParams cptr c member

lemma length_limit_le (c : Chan) : (digits c.limit.toNat).length ≤ 10 :=
  (Nat.length_toDigits_le_iff (by decide) (by decide)).mpr (Nat.lt_trans c.limit.toNat_lt (by decide))

lemma channelModes_eq (cptr : Viewer) (c : Chan) (member : Option Membership) :
    ∃ b : ModeText, b = (stringParams cptr c member).foldl (fun b p => b.append modebufLen p)
        ⟨'+' :: plainModes cptr c ++ (limitParam c).map Prod.fst, ((limitParam c).map Prod.snd).flatten,
          limitParam c ≠ []⟩ ∧ channelModes cptr modebufLen c member = (b.mbuf, b.pbuf) := by
  refine ⟨_, rfl, ?_⟩
  have hlimit : (digits c.limit.toNat).take (modebufLen - 1) = digits c.limit.toNat :=
    List.take_of_length_le (Nat.le_trans (length_limit_le c) (by decide))
  unfold channelModes stringParams passParams limitParam
  rw [hlimit]
  by_cases hl : c.limit = 0 <;> cases c.redir <;> cases c.key <;> cases c.apass <;> cases c.upass <;>
    cases cptr.seesPasses <;> simp [hl]

/-! ### What fits -/

/-- Words with a blank between them. `append_mode_param`. -/
def joined (ws : List Str) : Str := (spaced ws).drop 1

/-- The parameters in the buffer when these are there already and those are appended. `append_mode_param`. -/
def keptParams (buflen : ℕ) (ws : List Str) : List Str → List Str
  | [] => ws
  | t :: ts =>
    if (joined ws).length + t.length + 2 < buflen then keptParams buflen (ws ++ [t]) ts
    else keptParams buflen ws ts

/-- There is room for words: a single one needs one more character. `append_mode_param`. -/
def Fits (buflen : ℕ) (ws : List Str) : Prop :=
  (spaced ws).length + (if ws.length ≤ 1 then 1 else 0) < buflen

instance (buflen : ℕ) (ws : List Str) : Decidable (Fits buflen ws) :=
  inferInstanceAs (Decidable (_ < _))

lemma joined_snoc (ws : List Str) (t : Str) :
    joined (ws ++ [t]) = (if ws ≠ [] then joined ws ++ [' '] else joined ws) ++ t := by
  cases ws with
  | nil => simp [joined]
  | cons w ws => simp [joined]

lemma length_joined (ws : List Str) : (joined ws).length = (spaced ws).length - 1 := List.length_drop ..

lemma fits_snoc_iff (buflen : ℕ) (ws : List Str) (t : Str) :
    Fits buflen (ws ++ [t]) ↔ (joined ws).length + t.length + 2 < buflen := by
  have hlen : (spaced (ws ++ [t])).length = (spaced ws).length + t.length + 1 := by
    simp [Nat.add_assoc]
  rw [Fits, length_joined, hlen, length_append, List.length_singleton]
  cases ws with
  | nil => simp
  | cons w ws =>
    have hpos : 0 < (spaced (w :: ws)).length := by simp
    rw [if_neg (by simp)]
    omega

variable {buflen : ℕ} {ts : List Str}

lemma Fits.of_append {ws : List Str} (h : Fits buflen (ws ++ ts)) : Fits buflen ws := by
  induction ts generalizing ws with
  | nil => rwa [append_nil] at h
  | cons t ts ih =>
    rw [append_cons] at h
    have hone := ih h
    rw [Fits] at hone ⊢
    rw [spaced_append, length_append] at hone
    have hword : 0 < (spaced [t]).length := by simp
    split <;> omega

lemma length_keptParams_le (buflen : ℕ) (ts : List Str) : ∀ ws,
    (keptParams buflen ws ts).length ≤ ws.length + ts.length := by
  induction ts with
  | nil => exact fun ws => Nat.le_refl _
  | cons t ts ih =>
    intro ws
    rw [keptParams, List.length_cons]
    split
    · have h := ih (ws ++ [t])
      rw [length_append, List.length_singleton] at h
      omega
    · have h := ih ws
      omega

lemma mem_keptParams : ∀ {ws : List Str} {w : Str}, w ∈ keptParams buflen ws ts → w ∈ ws ∨ w ∈ ts := by
  induction ts with
  | nil => exact fun h => .inl h
  | cons t ts ih =>
    intro ws w h
    rw [keptParams] at h
    split at h
    · obtain h | h := ih h
      · obtain h | h := List.mem_append.mp h
        · exact .inl h
        · exact .inr (mem_singleton.mp h ▸ List.mem_cons_self)
      · exact .inr (List.mem_cons_of_mem t h)
    · exact (ih h).imp id (List.mem_cons_of_mem t)

lemma keptParams_eq_iff : ∀ {ws : List Str}, Fits buflen ws →
    (keptParams buflen ws ts = ws ++ ts ↔ Fits buflen (ws ++ ts)) := by
  induction ts with
  | nil =>
    intro ws hws
    rw [keptParams, append_nil]
    exact iff_of_true rfl hws
  | cons t ts ih =>
    intro ws hws
    rw [keptParams, append_cons ws t ts]
    by_cases ht : Fits buflen (ws ++ [t])
    · rw [if_pos ((fits_snoc_iff buflen ws t).mp ht)]
      exact ih ht
    · rw [if_neg (mt (fits_snoc_iff buflen ws t).mpr ht)]
      refine iff_of_false (fun h => ?_) (mt Fits.of_append ht)
      have hlen := length_keptParams_le buflen ts ws
      rw [h, length_append, length_append, List.length_singleton] at hlen
      omega

lemma foldl_append (buflen : ℕ) (ps : List (Char × Str)) : ∀ (mbuf : Str) (ws : List Str),
    ps.foldl (fun b p => b.append buflen p) (⟨mbuf, joined ws, ws ≠ []⟩ : ModeText) = ⟨mbuf ++ ps.map Prod.fst,
    joined (keptParams buflen ws (ps.map Prod.snd)), keptParams buflen ws (ps.map Prod.snd) ≠ []⟩ := by
  induction ps with
  | nil =>
    intro mbuf ws
    simp [keptParams]
  | cons p ps ih =>
    intro mbuf ws
    rw [List.foldl_cons, map_cons, map_cons, keptParams, append_cons]
    by_cases hp : (joined ws).length + p.2.length + 2 < buflen
    · rw [if_pos hp, ← ih (mbuf ++ [p.1]) (ws ++ [p.2]), joined_snoc]
      refine congrArg (fun b => List.foldl _ b ps) ?_
      rw [ModeText.append, appendModeParam, if_pos hp]
      simp
    · rw [if_neg hp, ← ih (mbuf ++ [p.1]) ws]
      refine congrArg (fun b => List.foldl _ b ps) ?_
      rw [ModeText.append, appendModeParam, if_neg hp]

/-! ### Letters and parameters -/

lemma takesArg_plainModes (cptr : Viewer) (c : Chan) : ∀ ch ∈ plainModes cptr c, takesArg .add ch =
    false := by
  have hone : ∀ (p : Prop) [Decidable p] (a : Char), takesArg .add a = false →
      ∀ ch ∈ (if p then [a] else []), takesArg .add ch = false := by
    intro p _ a ha ch hch
    split at hch
    · exact mem_singleton.mp hch ▸ ha
    · exact absurd hch not_mem_nil
  have htwo : ∀ (p : Prop) [Decidable p] (a : Char) (s : Str), takesArg .add a = false →
      (∀ ch ∈ s, takesArg .add ch = false) → ∀ ch ∈ (if p then [a] else s), takesArg .add ch = false := by
    intro p _ a s ha hs ch hch
    split at hch
    · exact mem_singleton.mp hch ▸ ha
    · exact hs ch hch
  unfold plainModes
  simp only [List.forall_mem_append]
  repeat' apply And.intro
  all_goals first
    | exact hone _ _ rfl
    | exact htwo _ _ _ rfl (hone _ _ rfl)

lemma modeParams_letters (cptr : Viewer) (c : Chan) (member : Option Membership) :
    ((modeParams cptr c member).map Prod.fst).filter (takesArg .add) = (modeParams cptr c member).map Prod.fst ∧
      ((modeParams cptr c member).map Prod.fst).map (modeParam cptr c member)
        = (modeParams cptr c member).map Prod.snd := by
  unfold modeParams limitParam stringParams passParams modeParam
  by_cases hl : c.limit = 0 <;> cases hr : c.redir <;> cases hk : c.key <;> cases ha : c.apass <;>
    cases hu : c.upass <;> cases hs : cptr.seesPasses <;> simp [hl, takesArg, optText]

lemma isWord_modeParams (cptr : Viewer) (c : Chan) (member : Option Membership) :
    ∀ w ∈ (modeParams cptr c member).map Prod.snd, IsWord w := by
  have hstar : IsWord ['*'] := by decide
  have hopt : ∀ (o : Option ModeString) (ch : Char) (f : ModeString → Str), (∀ t, IsWord (f t)) →
      ∀ p ∈ (o.map fun t => (ch, f t)).toList, IsWord p.2 := by
    intro o ch f hf p hp
    cases o with
    | none => exact absurd hp not_mem_nil
    | some t => exact mem_singleton.mp hp ▸ hf t
  have hsees : ∀ (l : List (Char × Str)), (∀ p ∈ l, IsWord p.2) →
      ∀ p ∈ (if cptr.seesPasses = true then l else []), IsWord p.2 := by
    intro l hl p hp
    split at hp
    · exact hl p hp
    · exact absurd hp not_mem_nil
  have hif : ∀ (b : Bool) (t : ModeString), IsWord (if b = true then t.text else ['*']) := by
    intro b t
    cases b
    · exact hstar
    · exact t.word
  have hall : ∀ p ∈ modeParams cptr c member, IsWord p.2 := by
    unfold modeParams limitParam stringParams passParams
    simp only [List.forall_mem_append]
    refine ⟨?_, ⟨hopt _ _ _ fun t => t.word, hopt _ _ _ fun t => hif _ t⟩,
      hsees _ (hopt _ _ _ fun t => hif _ t), hsees _ (hopt _ _ _ fun t => hif _ t)⟩
    intro p hp
    split at hp
    · exact mem_singleton.mp hp ▸ isWord_digits c.limit.toNat
    · exact absurd hp not_mem_nil
  intro w hw
  obtain ⟨p, hp, rfl⟩ := List.mem_map.mp hw
  exact hall p hp

lemma length_modeParams_le (cptr : Viewer) (c : Chan) (member : Option Membership) :
    (modeParams cptr c member).length ≤ 5 := by
  have hopt : ∀ {α : Type} (o : Option α), o.toList.length ≤ 1 := by
    intro α o
    cases o <;> simp
  have hsees : ∀ (l : List (Char × Str)), l.length ≤ 1 →
      (if cptr.seesPasses = true then l else []).length ≤ 1 := by
    intro l hl
    split
    · exact hl
    · exact Nat.zero_le 1
  have hlimit : (limitParam c).length ≤ 1 := by
    unfold limitParam
    split <;> simp
  have h₁ := hopt (c.redir.map fun t => ('L', t.text))
  have h₂ := hopt (c.key.map fun t => ('k', keyText cptr c t))
  have h₃ := hsees _ (hopt (c.apass.map fun t => ('A', apassText cptr t)))
  have h₄ := hsees _ (hopt (c.upass.map fun t => ('U', upassText cptr member t)))
  simp only [modeParams, stringParams, passParams, length_append]
  omega

lemma parseParams_joined {ws : List Str} (hws : ∀ w ∈ ws, IsWord w) (hlen : ws.length < maxPara) :
    parseParams maxPara (joined ws) = ws := by
  have hblank : ∀ n s, parseParams n (' ' :: s) = parseParams n s := by
    intro n s
    cases n <;> simp [parseParams]
  have hread : parseParams maxPara (spaced ws) = ws := by
    have hword := parseParams_words hws (.inl rfl : StartsBlank []) (n := maxPara - ws.length) (by omega)
    rwa [Nat.add_sub_cancel' (Nat.le_of_lt hlen), parseParams_nil, append_nil, append_nil] at hword
  cases ws with
  | nil => rfl
  | cons w ws =>
    rw [spaced_cons] at hread
    rw [joined, spaced_cons, ← hblank]
    exact hread

lemma channelModes_texts (cptr : Viewer) (c : Chan) (member : Option Membership) :
    channelModes cptr modebufLen c member = ('+' :: plainModes cptr c ++ (modeParams cptr c member).map Prod.fst,
      joined (keptParams modebufLen ((limitParam c).map Prod.snd)
        ((stringParams cptr c member).map Prod.snd))) := by
  obtain ⟨b, hb, heq⟩ := channelModes_eq cptr c member
  have hstart : (⟨'+' :: plainModes cptr c ++ (limitParam c).map Prod.fst,
      ((limitParam c).map Prod.snd).flatten, limitParam c ≠ []⟩ : ModeText)
      = ⟨'+' :: plainModes cptr c ++ (limitParam c).map Prod.fst, joined ((limitParam c).map Prod.snd),
          (limitParam c).map Prod.snd ≠ []⟩ := by
    unfold limitParam
    split <;> simp [joined]
  rw [heq, hb, hstart, foldl_append, modeParams, map_append, List.append_assoc]

lemma channelModes_words (cptr : Viewer) (c : Chan) (member : Option Membership) :
    parseParams maxPara (channelModes cptr modebufLen c member).2
      = keptParams modebufLen ((limitParam c).map Prod.snd) ((stringParams cptr c member).map Prod.snd) := by
  rw [channelModes_texts]
  apply parseParams_joined
  · intro w hw
    refine isWord_modeParams cptr c member w ?_
    rw [modeParams, map_append]
    exact List.mem_append.mpr (mem_keptParams hw)
  · refine Nat.lt_of_le_of_lt (length_keptParams_le ..) ?_
    have hfive := length_modeParams_le cptr c member
    rw [modeParams, length_append] at hfive
    rw [List.length_map, List.length_map]
    exact Nat.lt_of_le_of_lt hfive (by decide)

lemma fits_limitParam (c : Chan) : Fits modebufLen ((limitParam c).map Prod.snd) := by
  have hlen := length_limit_le c
  unfold limitParam
  split
  · simp only [Fits, map_cons, List.map_nil, spaced_cons, spaced_nil, List.length_cons,
      length_append, List.length_nil, modebufLen]
    rw [if_pos (Nat.le_refl _)]
    omega
  · decide

/-- **Every letter that takes a parameter has its own when all parameters fit together**: their length with the
blanks between them is less than `MODEBUFLEN - 1`, and that of a single one is less by one more. -/
theorem channelModes_paired_iff (cptr : Viewer) (c : Chan) (member : Option Membership) :
    parseParams maxPara (channelModes cptr modebufLen c member).2
        = ((channelModes cptr modebufLen c member).1.filter (takesArg .add)).map (modeParam cptr c member) ↔
      Fits modebufLen ((modeParams cptr c member).map Prod.snd) := by
  obtain ⟨hletters, hparams⟩ := modeParams_letters cptr c member
  have hplain : ('+' :: plainModes cptr c).filter (takesArg .add) = [] := by
    rw [List.filter_eq_nil_iff]
    intro ch hch
    obtain rfl | hch := List.mem_cons.mp hch
    · decide
    · rw [takesArg_plainModes cptr c ch hch]
      exact Bool.false_ne_true
  have hfilter : ('+' :: plainModes cptr c ++ (modeParams cptr c member).map Prod.fst).filter (takesArg .add)
      = (modeParams cptr c member).map Prod.fst := by
    rw [List.filter_append, hplain, hletters, List.nil_append]
  have hall : (modeParams cptr c member).map Prod.snd
      = (limitParam c).map Prod.snd ++ (stringParams cptr c member).map Prod.snd := by
    rw [modeParams, map_append]
  rw [channelModes_words, channelModes_texts, hfilter, hparams, hall]
  exact keptParams_eq_iff (fits_limitParam c)

/-- A channel that redirects to another one. -/
def redirecting (redir : ModeString) : Chan where
  chname := "#c".toList
  creationtime := 1
  mode := ∅
  exmode := ∅
  limit := 0
  key := none
  upass := none
  apass := none
  redir := some redir
  members := []
  banlist := []
  exceptlist := []

def longName : ModeString := ⟨'#' :: List.replicate 197 'a', by decide +kernel, by decide +kernel⟩

/-- **A long redirect is left out, and its letter stays**: the letters are `+L`, and there is no parameter. -/
theorem long_redirect : ¬ ∀ (cptr : Viewer) (c : Chan) (member : Option Membership),
      parseParams maxPara (channelModes cptr modebufLen c member).2
        = ((channelModes cptr modebufLen c member).1.filter (takesArg .add)).map (modeParam cptr c member) := by
  intro h
  have hread := h ⟨"AB".toList, false, true, false, false⟩ (redirecting longName) none
  revert hread
  decide +kernel

end Nefarious.Channel

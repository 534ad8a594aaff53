import Nefarious.Channel.Bounce
import Nefarious.User.Modes

/-!
# Login on connect

A client that connects may name an account and a password in PASS; the server asks a service, with a cookie and
the descriptor of the client in an id, `.fd.cookie`, and waits for ACCOUNT with `A` or `D` and that id. An
access outside of the array, and one through a client without a user, is `none` here.

Names: `m_account.c`.
-/

namespace Nefarious.Loc

open Option (some.inj some_ne_none)

open User Channel

/-- `struct.h` `struct LOCInfo`. -/
structure LOCInfo where
  /-- `cookie`, zero before there is a request. -/
  cookie : ℕ
  account : Str
  /-- The number of the request, once it is made. -/
  request : Option ℕ
deriving DecidableEq

/-- `struct.h` `struct User`. -/
structure UserInfo where
  account : Str
  accCreate : ℤ
deriving DecidableEq

/-- A local client. `client.h` `struct Client`. -/
structure Cli where
  loc : Option LOCInfo
  user : Option UserInfo
  isAccount : Bool
  /-- `IsHiddenHost`. -/
  hidden : Bool
  /-- Whether `loctimeout` of `cli_auth` is active. -/
  timer : Bool
deriving DecidableEq

/-- The local clients; the rest is what has happened. `s_bsd.c` `LocalClientArray`. -/
structure State where
  /-- `LocalClientArray`. -/
  slot : ℕ → Option Cli
  requests : ℕ
  accepted : List ℕ

/-- Nobody is there. `s_bsd.c` `LocalClientArray`. -/
def State.init : State := ⟨fun _ => none, 0, []⟩

/-- A client that has connected. `list.c` `make_client`. -/
def newCli : Cli := ⟨none, none, false, false, false⟩

def State.put (s : State) (fd : ℕ) (c : Option Cli) : State := { s with slot := Function.update s.slot fd c }

/-! ### Replies -/

/-- The texts of the descriptor and the cookie; the first one goes on. `decode_auth_id`. -/
def splitId : Str → Option (Str × Str)
  | '.' :: rest =>
    match rest.dropWhile (· ≠ '.') with
    | '.' :: cookiestr => some (rest, cookiestr)
    | _ => none
  | _ => none

/-- A number as an unsigned int. `decode_auth_id`. -/
def unsigned (text : Str) : ℕ := (atoi text % 2 ^ 32).toNat

/-- The descriptor and the cookie of an id. `decode_auth_id`. -/
def idNumbers (id : Str) : Option (ℕ × ℕ) := (splitId id).map fun t => (unsigned t.1, unsigned t.2)

/-- What decoding an id comes to. `decode_auth_id`. -/
inductive Decoded where
  | outside
  | nobody
  | client (fd : ℕ) (c : Cli) (loc : LOCInfo)

def decodeAuthId (max : ℕ) (s : State) (id : Str) : Decoded :=
  match idNumbers id with
  | none => .nobody
  | some (fd, cookie) =>
    if max ≤ fd then .outside
    else
      match s.slot fd with
      | none => .nobody
      | some c =>
        match c.loc with
        | none => .nobody
        | some loc => if loc.cookie = cookie then .client fd c loc else .nobody

/-- A reply to this server: `A` or `D`, the id, and a creation time. `ms_account`. -/
structure Reply where
  /-- It is `A`. -/
  accept : Bool
  /-- `parv[3]`. -/
  id : Str
  /-- `parv[4]`. -/
  created : Option Str
  /-- `FEAT_HOST_HIDING_STYLE` is 1 or 3. -/
  hide : Bool

/-- A client that is accepted. `ms_account`. -/
def Cli.accept (c : Cli) (u : UserInfo) (loc : LOCInfo) (m : Reply) : Cli where
  loc := none
  user := some
    { account := ircdStrncpy u.account loc.account accountLen
      accCreate := (m.created.map atoi).getD u.accCreate }
  isAccount := true
  hidden := m.hide || c.hidden
  timer := false

/-- A reply. -/
def msAccount (max : ℕ) (s : State) (m : Reply) : Option State :=
  match decodeAuthId max s m.id with
  | .outside => none
  | .nobody => some s
  | .client fd c loc =>
    if m.accept then
      match c.user with
      | none => none
      | some u => some { s.put fd (some (c.accept u loc m)) with accepted := loc.request.toList ++ s.accepted }
    else some (s.put fd (some { c with timer := false }))

/-- What happens. `m_account.c`, `m_pass.c`, `s_auth.c`, `s_bsd.c`. -/
inductive Event where
  | connect (fd : ℕ)
  | user (fd : ℕ)
  /-- It names an account in PASS. -/
  | pass (fd : ℕ) (account : Str)
  | emptyPass (fd : ℕ)
  | ask (fd : ℕ) (random : ℕ)
  | timeout (fd : ℕ)
  | close (fd : ℕ)
  | reply (m : Reply)

def State.modify (s : State) (fd : ℕ) (f : Cli → Cli) : State := s.put fd ((s.slot fd).map f)

/-- An account is named, unless one is already. `m_pass.c` `mr_pass`. -/
def Cli.pass (c : Cli) (account : Str) : Cli :=
  if c.loc = none then { c with loc := some ⟨0, ircdStrncpy [] account (accountLen + 1), none⟩ } else c

/-- The service is asked once, when the client has a user; the cookie is not zero. `s_auth.c`
`auth_do_loc`, `check_auth_finished`. -/
def Cli.ask (c : Cli) (random request : ℕ) : Cli :=
  match c.loc, c.user with
  | some loc, some _ =>
    if loc.cookie ≠ 0 ∨ random % 2 ^ 31 = 0 then c
    else { c with loc := some { loc with cookie := random % 2 ^ 31, request := some request }, timer := true }
  | _, _ => c

/-- One event. `m_account.c`, `m_pass.c`, `s_auth.c`, `s_bsd.c`. -/
def step (max : ℕ) (s : State) : Event → Option State
  | .connect fd => some (if s.slot fd = none then s.put fd (some newCli) else s)
  | .user fd => some (s.modify fd fun c => if c.user = none then { c with user := some ⟨[], 0⟩ } else c)
  | .pass fd account => some (s.modify fd fun c => c.pass account)
  | .emptyPass fd => some (s.modify fd fun c => { c with loc := none, timer := false })
  | .ask fd random => some { s.modify fd (fun c => c.ask random s.requests) with requests := s.requests + 1 }
  | .timeout fd => some (s.modify fd fun c => { c with timer := false })
  | .close fd => some (s.put fd none)
  | .reply m => msAccount max s m

/-! ### What is asked for -/

def IsNumber (text : Str) (n : ℕ) : Prop := text ≠ [] ∧ text.all isDigit = true ∧ tsValue text = n

/-- The descriptor and the cookie in an id. `decode_auth_id` ("request-id"). -/
def InId (id : Str) (fd cookie : ℕ) : Prop :=
  ∃ a b, id = '.' :: a ++ '.' :: b ∧ IsNumber a fd ∧ IsNumber b cookie

/-- A reply only changes a client with a request outstanding whose descriptor and cookie are in the id, and an
acceptance gives it the account of the request. -/
def Right (s s' : State) (m : Reply) : Prop :=
  ∀ fd, s'.slot fd ≠ s.slot fd → ∃ c loc k, s.slot fd = some c ∧ c.loc = some loc ∧ loc.request = some k ∧
    InId m.id fd loc.cookie ∧ (m.accept = true → k ∉ s.accepted ∧ ∃ c' u, s'.slot fd = some c' ∧ c'.user = some u ∧
      u.account = loc.account ∧ c'.isAccount = true ∧ c'.loc = none)

/-- A run in which every access is inside of the array, every reply is right, and no request is accepted twice. -/
def AllRight (max : ℕ) : State → List Event → Prop
  | s, [] => s.accepted.Nodup
  | s, e :: es => s.accepted.Nodup ∧ ∃ s', step max s e = some s' ∧ (∀ m, e = .reply m → Right s s' m) ∧
      AllRight max s' es

/-- The texts of an id are numbers that fit an int. -/
def Plain (id : Str) : Prop :=
  ∃ a b, id = '.' :: a ++ '.' :: b ∧ (a ≠ [] ∧ a.all isDigit = true ∧ tsValue a < 2 ^ 31) ∧
    b ≠ [] ∧ b.all isDigit = true ∧ tsValue b < 2 ^ 31

/-- A sane reply: the descriptor that is read from its id is one of the array, and if the cookie that is read is
that of the client there, then the cookie is not zero, the id is plain, and an accepted account is shorter than
an account may be. -/
def Sane (max : ℕ) (s : State) (m : Reply) : Prop :=
  ∀ fd cookie, idNumbers m.id = some (fd, cookie) → fd < max ∧ ∀ c loc, s.slot fd = some c → c.loc = some loc →
    loc.cookie = cookie → cookie ≠ 0 ∧ Plain m.id ∧ (m.accept = true → loc.account.length < accountLen)

def AllSane (max : ℕ) : State → List Event → Prop
  | _, [] => True
  | s, e :: es => (∀ m, e = .reply m → Sane max s m) ∧ ∀ s', step max s e = some s' → AllSane max s' es

/-- What holds of a request: it has been made if there is a cookie, and then nobody else has it, and it was not
accepted. `s_auth.c` `auth_do_loc`. -/
structure LocOk (s : State) (fd : ℕ) (c : Cli) (loc : LOCInfo) : Prop where
  asked : loc.cookie ≠ 0 → loc.request ≠ none ∧ c.user ≠ none
  fresh : ∀ k, loc.request = some k → k < s.requests ∧ k ∉ s.accepted ∧
    ∀ fd' c' loc', fd' ≠ fd → s.slot fd' = some c' → c'.loc = some loc' → loc'.request ≠ some k

/-- The invariant of all runs. `s_auth.c` `auth_do_loc`; `ms_account`. -/
structure Inv (s : State) : Prop where
  nodup : s.accepted.Nodup
  old : ∀ k ∈ s.accepted, k < s.requests
  loc : ∀ fd c loc, s.slot fd = some c → c.loc = some loc → LocOk s fd c loc

lemma inv_init : Inv State.init := by
  refine ⟨List.nodup_nil, fun k hk => absurd hk List.not_mem_nil, ?_⟩
  intro fd c loc hc
  cases hc

section
variable {s : State} {fd : ℕ}

lemma Inv.put (h : Inv s) {v : Option Cli} (hv : ∀ c loc, v = some c → c.loc = some loc → LocOk s fd c loc) :
    Inv (s.put fd v) := by
  have hsame : (s.put fd v).slot fd = v := Function.update_self ..
  have hother : ∀ {fd'}, fd' ≠ fd → (s.put fd v).slot fd' = s.slot fd' := fun hne => Function.update_of_ne hne ..
  refine ⟨h.nodup, h.old, ?_⟩
  intro fd₁ c loc hc hloc
  by_cases he : fd₁ = fd
  · subst he
    rw [hsame] at hc
    have hok := hv c loc hc hloc
    refine ⟨hok.asked, fun k hk => ?_⟩
    obtain ⟨hlt, hnot, hapart⟩ := hok.fresh k hk
    refine ⟨hlt, hnot, fun fd' c' loc' hne hc' => ?_⟩
    rw [hother hne] at hc'
    exact hapart fd' c' loc' hne hc'
  · rw [hother he] at hc
    have hok := h.loc fd₁ c loc hc hloc
    refine ⟨hok.asked, fun k hk => ?_⟩
    obtain ⟨hlt, hnot, hapart⟩ := hok.fresh k hk
    refine ⟨hlt, hnot, fun fd' c' loc' hne hc' hloc' => ?_⟩
    by_cases he' : fd' = fd
    · subst he'
      rw [hsame] at hc'
      intro hk'
      exact ((hv c' loc' hc' hloc').fresh k hk').2.2 fd₁ c loc (Ne.symm hne) hc hloc hk
    · rw [hother he'] at hc'
      exact hapart fd' c' loc' hne hc' hloc'

lemma Inv.modify (h : Inv s) {f : Cli → Cli} (hf : ∀ c loc, (f c).loc = some loc →
    (loc.cookie = 0 ∧ loc.request = none) ∨ (c.loc = some loc ∧ (c.user ≠ none → (f c).user ≠ none))) :
    Inv (s.modify fd f) := by
  apply h.put
  intro c loc hc hloc
  obtain ⟨c₀, hc₀, rfl⟩ := Option.map_eq_some_iff.mp hc
  rcases hf c₀ loc hloc with ⟨hzero, hnone⟩ | ⟨hsame, huser⟩
  · refine ⟨fun hne => absurd hzero hne, fun k hk => ?_⟩
    rw [hnone] at hk
    cases hk
  · have hok := h.loc fd c₀ loc hc₀ hsame
    exact ⟨fun hne => ⟨(hok.asked hne).1, huser (hok.asked hne).2⟩, hok.fresh⟩

lemma Inv.ask (h : Inv s) (random : ℕ) :
    Inv { s.modify fd (fun c => c.ask random s.requests) with requests := s.requests + 1 } := by
  have hmore : Inv { s with requests := s.requests + 1 } := by
    refine ⟨h.nodup, fun k hk => Nat.lt_succ_of_lt (h.old k hk), fun fd c loc hc hloc => ?_⟩
    have hok := h.loc fd c loc hc hloc
    refine ⟨hok.asked, fun k hk => ?_⟩
    obtain ⟨hlt, hnot, hapart⟩ := hok.fresh k hk
    exact ⟨Nat.lt_succ_of_lt hlt, hnot, hapart⟩
  apply hmore.put
  intro c loc hc hloc
  obtain ⟨c₀, hc₀, rfl⟩ := Option.map_eq_some_iff.mp hc
  have hkeep : c₀.ask random s.requests = c₀ → LocOk { s with requests := s.requests + 1 } fd
      (c₀.ask random s.requests) loc := by
    intro he
    rw [he] at hloc ⊢
    exact hmore.loc fd c₀ loc hc₀ hloc
  cases hl : c₀.loc with
  | none => exact hkeep (by simp [Cli.ask, hl])
  | some loc₀ =>
    cases hu : c₀.user with
    | none => exact hkeep (by simp [Cli.ask, hl, hu])
    | some u =>
      by_cases hskip : loc₀.cookie ≠ 0 ∨ random % 2 ^ 31 = 0
      · exact hkeep (by simp only [Cli.ask, hl, hu, if_pos hskip])
      · simp only [Cli.ask, hl, hu, if_neg hskip] at hloc ⊢
        obtain rfl := some.inj hloc
        refine ⟨fun _ => ⟨some_ne_none _, some_ne_none _⟩, ?_⟩
        rintro k hk
        obtain rfl := some.inj hk
        refine ⟨Nat.lt_succ_self _, fun hmem => Nat.lt_irrefl _ (h.old _ hmem), ?_⟩
        intro fd' c' loc' hne hc' hloc' hk'
        exact Nat.lt_irrefl _ ((h.loc fd' c' loc' hc' hloc').fresh _ hk').1

lemma msAccount_cases (h : Inv s) {max : ℕ} {m : Reply} (hs : Sane max s m) : ∃ s', msAccount max s m = some s' ∧
    (s' = s ∨ ∃ fd c loc k u, s.slot fd = some c ∧ c.loc = some loc ∧ loc.request = some k ∧ c.user = some u ∧
      idNumbers m.id = some (fd, loc.cookie) ∧ Plain m.id ∧ (m.accept = true → loc.account.length < accountLen) ∧
      s' = if m.accept then { s.put fd (some (c.accept u loc m)) with accepted := k :: s.accepted }
        else s.put fd (some { c with timer := false })) := by
  unfold msAccount decodeAuthId
  cases hid : idNumbers m.id with
  | none => exact ⟨s, rfl, Or.inl rfl⟩
  | some t =>
    obtain ⟨fd, cookie⟩ := t
    obtain ⟨hlt, hsane⟩ := hs fd cookie hid
    dsimp only
    rw [if_neg (not_le.mpr hlt)]
    cases hc : s.slot fd with
    | none => exact ⟨s, rfl, Or.inl rfl⟩
    | some c =>
      dsimp only
      cases hl : c.loc with
      | none => exact ⟨s, rfl, Or.inl rfl⟩
      | some loc =>
        dsimp only
        by_cases hcookie : loc.cookie = cookie
        · subst hcookie
          obtain ⟨hne, hplain, hlen⟩ := hsane c loc hc hl rfl
          obtain ⟨hreq, huser⟩ := (h.loc fd c loc hc hl).asked hne
          obtain ⟨k, hk⟩ := Option.ne_none_iff_exists'.mp hreq
          obtain ⟨u, hu⟩ := Option.ne_none_iff_exists'.mp huser
          rw [if_pos rfl]
          refine ⟨_, ?_, Or.inr ⟨fd, c, loc, k, u, hc, hl, hk, hu, rfl, hplain, hlen, rfl⟩⟩
          by_cases haccept : m.accept = true
          · simp only [if_pos haccept, hu, hk, Option.toList_some, List.singleton_append]
          · simp only [if_neg haccept]
        · rw [if_neg hcookie]
          exact ⟨s, rfl, Or.inl rfl⟩

end

lemma tsValue_append {a b : Str} (ha : a.all isDigit = true) (hb : b.head?.all (!isDigit ·) = true) :
    tsValue (a ++ b) = tsValue a := by
  have hall : ∀ c ∈ a, isDigit c = true := List.all_eq_true.mp ha
  have htail : b.takeWhile isDigit = [] := by
    cases b with
    | nil => rfl
    | cons c b =>
      have hc : isDigit c = false := by simpa using hb
      rw [List.takeWhile_cons, hc]
      rfl
  unfold tsValue
  rw [List.takeWhile_append_of_pos hall, htail, List.append_nil, List.takeWhile_eq_self_iff.mpr hall]

lemma unsigned_number {a b : Str} (hne : a ≠ []) (ha : a.all isDigit = true) (hlt : tsValue a < 2 ^ 31)
    (hb : b.head?.all (!isDigit ·) = true) : unsigned (a ++ b) = tsValue a := by
  have hval := tsValue_append ha hb
  have hhead : (a ++ b).head?.any isDigit = true := by
    obtain ⟨c, a', rfl⟩ := List.exists_cons_of_ne_nil hne
    have hc : isDigit c = true := List.all_eq_true.mp ha c List.mem_cons_self
    simpa using hc
  have hatoi := atoi_tsValue hhead (hval.trans_lt hlt)
  unfold unsigned
  rw [hatoi, hval]
  have : tsValue a < 2 ^ 32 := hlt.trans (by decide)
  omega

lemma splitId_number {a b : Str} (ha : a.all isDigit = true) :
    splitId ('.' :: a ++ '.' :: b) = some (a ++ '.' :: b, b) := by
  have hall : ∀ c ∈ a, decide (c ≠ '.') = true := by
    intro c hc
    have hdigit := List.all_eq_true.mp ha c hc
    apply decide_eq_true
    rintro rfl
    exact absurd hdigit (by decide)
  have hdrop : (a ++ '.' :: b).dropWhile (fun c => decide (c ≠ '.')) = '.' :: b := by
    rw [List.dropWhile_append_of_pos hall]
    rfl
  change (match (a ++ '.' :: b).dropWhile (fun c => decide (c ≠ '.')) with
    | '.' :: cookiestr => some (a ++ '.' :: b, cookiestr)
    | _ => none) = _
  rw [hdrop]
  rfl

lemma inId_of_plain {id : Str} {fd cookie : ℕ} (hp : Plain id) (hid : idNumbers id = some (fd, cookie)) :
    InId id fd cookie := by
  obtain ⟨a, b, rfl, ⟨hane, ha, halt⟩, hbne, hb, hblt⟩ := hp
  have hfd : unsigned (a ++ '.' :: b) = tsValue a := unsigned_number hane ha halt rfl
  have hcookie : unsigned b = tsValue b := by
    have hread := unsigned_number (b := []) hbne hb hblt rfl
    rwa [List.append_nil] at hread
  unfold idNumbers at hid
  rw [splitId_number ha, Option.map_some, hfd, hcookie, Option.some_inj, Prod.mk.injEq] at hid
  exact ⟨a, b, rfl, ⟨hane, ha, hid.1⟩, hbne, hb, hid.2⟩

/-! ### Sane runs -/

lemma account_whole (dst : Str) {src : Str} (h : src.length < accountLen) : ircdStrncpy dst src accountLen =
    src := by
  unfold ircdStrncpy
  rw [if_neg (by decide), List.take_of_length_le (Nat.le_sub_one_of_lt h)]

section
variable {s s' : State} {max : ℕ}

lemma msAccount_right (h : Inv s) {m : Reply} (hs : Sane max s m) :
    ∃ s', msAccount max s m = some s' ∧ Right s s' m ∧ Inv s' := by
  obtain ⟨s', hs', rfl | ⟨fd, c, loc, k, u, hc, hl, hk, hu, hid, hplain, hlen, rfl⟩⟩ := msAccount_cases h hs
  · exact ⟨s', hs', fun fd hne => absurd rfl hne, h⟩
  · have hin := inId_of_plain hplain hid
    have hok := h.loc fd c loc hc hl
    obtain ⟨hlt, hnot, hapart⟩ := hok.fresh k hk
    refine ⟨_, hs', ?_, ?_⟩
    · intro fd' hne
      obtain rfl : fd' = fd := by
        by_contra hne'
        apply hne
        by_cases haccept : m.accept = true
        · rw [if_pos haccept]
          exact Function.update_of_ne hne' ..
        · rw [if_neg haccept]
          exact Function.update_of_ne hne' ..
      refine ⟨c, loc, k, hc, hl, hk, hin, fun haccept => ⟨hnot, c.accept u loc m, _, ?_, rfl, ?_, rfl, rfl⟩⟩
      · rw [if_pos haccept]
        exact Function.update_self ..
      · exact account_whole u.account (hlen haccept)
    · by_cases haccept : m.accept = true
      · rw [if_pos haccept]
        have hput : Inv (s.put fd (some (c.accept u loc m))) := by
          apply h.put
          intro c' loc' hc' hl'
          obtain rfl := some.inj hc'
          cases hl'
        refine ⟨List.nodup_cons.mpr ⟨hnot, h.nodup⟩, ?_, ?_⟩
        · intro k' hk'
          rcases List.mem_cons.mp hk' with rfl | hk'
          · exact hlt
          · exact h.old k' hk'
        · intro fd' c' loc' hc' hl'
          have hok' := hput.loc fd' c' loc' hc' hl'
          refine ⟨hok'.asked, fun k' hk' => ?_⟩
          obtain ⟨hlt', hnot', hapart'⟩ := hok'.fresh k' hk'
          refine ⟨hlt', ?_, hapart'⟩
          intro hmem
          rcases List.mem_cons.mp hmem with rfl | hmem
          · by_cases he : fd' = fd
            · subst he
              have hc'' : (s.put fd' (some (c.accept u loc m))).slot fd' = some (c.accept u loc m) :=
                Function.update_self ..
              rw [hc''] at hc'
              obtain rfl := some.inj hc'
              cases hl'
            · have hc'' : (s.put fd (some (c.accept u loc m))).slot fd' = s.slot fd' := Function.update_of_ne he ..
              rw [hc''] at hc'
              exact hapart fd' c' loc' he hc' hl' hk'
          · exact hnot' hmem
      · rw [if_neg haccept]
        apply h.put
        intro c' loc' hc' hl'
        obtain rfl := some.inj hc'
        have hok' := h.loc fd c loc' hc hl'
        exact ⟨hok'.asked, hok'.fresh⟩

lemma step_inv (h : Inv s) (e : Event) (hs : ∀ m, e = .reply m → Sane max s m) :
    ∃ s', step max s e = some s' ∧ (∀ m, e = .reply m → Right s s' m) ∧ Inv s' := by
  have hown : ∀ {s'}, Inv s' → step max s e = some s' → (∀ m, e ≠ .reply m) →
      ∃ s', step max s e = some s' ∧ (∀ m, e = .reply m → Right s s' m) ∧ Inv s' :=
    fun {s'} hi hstep hne => ⟨s', hstep, fun m hm => absurd hm (hne m), hi⟩
  cases e with
  | connect fd =>
    refine hown ?_ rfl nofun
    by_cases hfree : s.slot fd = none
    · rw [if_pos hfree]
      apply h.put
      intro c loc hc hl
      obtain rfl := some.inj hc
      cases hl
    · rw [if_neg hfree]
      exact h
  | user fd =>
    refine hown (h.modify fun c loc hl => Or.inr ?_) rfl nofun
    by_cases hnone : c.user = none
    · rw [if_pos hnone] at hl ⊢
      exact ⟨hl, fun hne => absurd hnone hne⟩
    · rw [if_neg hnone] at hl ⊢
      exact ⟨hl, id⟩
  | pass fd account =>
    refine hown (h.modify fun c loc hl => ?_) rfl nofun
    unfold Cli.pass at hl ⊢
    by_cases hnone : c.loc = none
    · rw [if_pos hnone] at hl
      obtain rfl := some.inj hl
      exact .inl ⟨rfl, rfl⟩
    · rw [if_neg hnone] at hl ⊢
      exact .inr ⟨hl, id⟩
  | emptyPass fd => exact hown (h.modify fun _ loc hl => absurd hl.symm (some_ne_none loc)) rfl nofun
  | ask fd random => exact hown (h.ask random) rfl nofun
  | timeout fd =>
    have hi : Inv (s.modify fd fun c => { c with timer := false }) := h.modify fun c loc hl => Or.inr ⟨hl, id⟩
    exact hown hi rfl nofun
  | close fd =>
    have hi : Inv (s.put fd none) := h.put fun c loc hc => absurd hc.symm (some_ne_none c)
    exact hown hi rfl nofun
  | reply m =>
    obtain ⟨s', hs', hright, hi⟩ := msAccount_right h (hs m rfl)
    refine ⟨s', hs', fun m' hm' => ?_, hi⟩
    obtain rfl := Event.reply.inj hm'
    exact hright

lemma allRight_of_inv (h : Inv s) {es : List Event} (hs : AllSane max s es) : AllRight max s es := by
  induction es generalizing s with
  | nil => exact h.nodup
  | cons e es ih =>
    obtain ⟨s', hs', hright, hi⟩ := step_inv h e hs.1
    exact ⟨h.nodup, s', hs', hright, ih hi (hs.2 s' hs')⟩

/-- **Replies only reach their request**, in every run of sane replies. -/
theorem run_right {es : List Event} (hs : AllSane max .init es) : AllRight max .init es :=
  allRight_of_inv inv_init hs

end

/-- One that is. `ms_account`. -/
theorem run_right_sample : AllRight 16 .init [.connect 3, .pass 3 "adam".toList, .user 3, .ask 3 77,
      .reply ⟨true, ".3.77".toList, none, false⟩] := by
  apply run_right
  refine ⟨nofun, fun s₁ h₁ => ⟨nofun, fun s₂ h₂ => ⟨nofun, fun s₃ h₃ => ⟨nofun, fun s₄ h₄ => ⟨?_, ?_⟩⟩⟩⟩⟩
  · intro m hm fd cookie hid
    obtain rfl := Event.reply.inj hm
    obtain rfl := some.inj h₁
    obtain rfl := some.inj h₂
    obtain rfl := some.inj h₃
    obtain rfl := some.inj h₄
    have hread : idNumbers ".3.77".toList = some (3, 77) := by decide
    obtain ⟨rfl, rfl⟩ := Prod.mk.inj (some.inj (hread.symm.trans hid))
    refine ⟨by decide, fun c loc hc hl _ => ⟨by decide, ?_, fun _ => ?_⟩⟩
    · exact ⟨['3'], ['7', '7'], rfl, by decide, by decide⟩
    · obtain rfl := some.inj hc
      obtain rfl := some.inj hl
      decide
  · exact fun _ _ => trivial

/-- The descriptor is not checked. `decode_auth_id`. -/
theorem beyond_array : ¬ AllRight 16 .init [.reply ⟨true, ".99.1".toList, none, false⟩] := by
  rintro ⟨-, s', hs', -⟩
  have hnone : step 16 .init (.reply ⟨true, ".99.1".toList, none, false⟩) = none := rfl
  exact absurd (hnone.symm.trans hs') (some_ne_none s').symm

end Nefarious.Loc

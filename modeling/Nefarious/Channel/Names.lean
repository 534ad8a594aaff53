import Nefarious.Channel.Modes

/-!
# The names on a channel

The members that are shown are put on lines one after the other, and a line is sent when another name might not
fit.

Names: `m_names.c`.
-/

namespace Nefarious.Names

open Channel (Chan Chfl Membership channelLen)

def nickLen : ℕ := 30

def userLen : ℕ := 10

def hostLen : ℕ := 75

/-- What is shown of a user. `client.h` `struct Client`. -/
structure User where
  name : Str
  username : Str
  host : Str
  invisible : Bool
  name_le : name.length ≤ nickLen
  username_le : username.length ≤ userLen
  host_le : host.length ≤ hostLen

/-- The arguments of `do_names`, with what it reads of the one who asks. -/
structure Query where
  /-- `cli_name(&me)`. -/
  me : Str
  /-- The numeric nick of the one who asks. -/
  sptr : Str
  /-- `cli_name(sptr)`. -/
  nick : Str
  /-- `IsNamesX`, `CAP_NAMESX`. -/
  namesX : Bool
  /-- `IsUHNames`, `CAP_UHNAMES`. -/
  uhNames : Bool
  chptr : Chan
  /-- `NAMES_VIS`. -/
  vis : Bool
  /-- `NAMES_DEL`. -/
  del : Bool
  /-- `NAMES_EON`. -/
  eon : Bool
  /-- The users, by their numeric nicks. -/
  users : Str → User
  me_le : me.length ≤ hostLen
  nick_le : nick.length ≤ nickLen
  chname_le : chptr.chname.length ≤ channelLen

variable (q : Query)

/-- The member is listed. `do_names`. -/
def Query.lists (m : Membership) : Bool :=
  !(q.vis && (q.users m.user).invisible) && !(.zombie ∈ m.status && m.user ≠ q.sptr) &&
    !(.delayed ∈ m.status && m.user ≠ q.sptr && !q.del) &&
    !((!(.delayed ∈ m.status) || m.user = q.sptr) && q.del)

/-- The marks of a member, of which only the first is printed without `NAMESX`. `do_names` (`done_prefix`). -/
def marks (m : Membership) : Str :=
  ([(Chfl.zombie, '!'), (.chanop, '@'), (.halfop, '%'), (.voice, '+')].filter (·.1 ∈ m.status)).map Prod.snd

/-- What is printed of a member. `do_names`. -/
def Query.word (m : Membership) : Str :=
  let u := q.users m.user
  (if q.namesX then marks m else (marks m).take 1) ++
    (u.name ++ if q.uhNames then '!' :: (u.username ++ '@' :: u.host) else [])

/-- `PubChannel`. `channel.h`. -/
def Query.pub : Bool := .priv ∉ q.chptr.mode ∧ .secret ∉ q.chptr.mode

/-- The line before there are names on it. `do_names`. -/
def Query.head : Str :=
  (if q.pub then '=' else if .secret ∈ q.chptr.mode then '@' else '*') :: ' ' :: (q.chptr.chname ++ [' ', ':'])

/-- The length of a reply without the line. `do_names`. -/
def Query.mlen : ℕ := q.me.length + 10 + q.nick.length

/-- The loop over the members, with the line, `needs_space` and `flag`. `do_names`. -/
def Query.loop : List Membership → Str → Bool → Bool → List Str
  | [], buf, _, flag => if flag then [buf] else []
  | m :: ms, buf, needs_space, flag =>
    if q.lists m then
      let buf := buf ++ ((if needs_space then [' '] else []) ++ q.word m)
      if bufSize < q.chptr.chname.length + q.mlen + buf.length + nickLen + 8 + userLen + hostLen + 2 then
        buf :: Query.loop ms q.head false false
      else Query.loop ms buf true true
    else Query.loop ms buf needs_space flag

/-- The replies, each with its numeric: names are listed unless the channel is hidden from the one who asks. -/
def Query.doNames : List (ℕ × Str) :=
  if q.pub ∨ q.chptr.members.any (fun m => m.user = q.sptr ∧ .zombie ∉ m.status) then
    (q.loop q.chptr.members q.head false true).map (fun buf => (if q.del then 355 else 353, buf)) ++
      if q.eon then [(366, q.chptr.chname)] else []
  else []

/-- The line with the names of some members. -/
def Query.line (g : List Membership) : Str := q.head ++ [' '].intercalate (g.map q.word)

/-- The reply is not longer than a message: `:`, ` 353 `, a blank and the end are added. `ircd_reply.c` `send_reply`. -/
def Query.Fits (buf : Str) : Prop := q.me.length + q.nick.length + 9 + buf.length ≤ bufSize

lemma Query.fits_short {buf : Str} (h : buf.length ≤ q.chptr.chname.length + 126) : q.Fits buf := by
  have h1 := q.me_le
  have h2 := q.nick_le
  have h3 := q.chname_le
  simp only [Query.Fits, nickLen, hostLen, channelLen, bufSize] at *
  omega

lemma Query.fits_within {buf buf' : Str}
    (h : q.chptr.chname.length + q.mlen + buf.length + 125 ≤ bufSize) (h' : buf'.length ≤ buf.length + 122) :
    q.Fits buf' := by
  rw [Query.mlen] at h
  rw [Query.Fits]
  omega

lemma Query.length_word (m : Membership) : (q.word m).length ≤ 121 := by
  have hname := (q.users m.user).name_le
  have husername := (q.users m.user).username_le
  have hhost := (q.users m.user).host_le
  have hmarks : (if q.namesX then marks m else (marks m).take 1).length ≤ 4 := by
    have hall : (marks m).length ≤ 4 := by
      rw [marks, List.length_map]
      exact List.length_filter_le _ _
    split
    · exact hall
    · exact (List.length_take_le _ _).trans (by decide)
  simp only [nickLen, userLen, hostLen] at hname husername hhost
  rw [Query.word, List.length_append, List.length_append]
  by_cases hu : q.uhNames = true
  · rw [if_pos hu, List.length_cons, List.length_append, List.length_cons]
    omega
  · rw [if_neg hu, List.length_nil]
    omega

lemma intercalate_concat {sep w : Str} : {l : List Str} → l ≠ [] →
    sep.intercalate (l ++ [w]) = sep.intercalate l ++ (sep ++ w)
  | [x], _ => by simp
  | x :: y :: l, _ => by
    have ih := @intercalate_concat sep w (y :: l) (List.cons_ne_nil y l)
    simp only [List.cons_append, List.intercalate_cons_cons] at ih ⊢
    rw [ih, List.append_assoc, List.append_assoc, List.append_assoc]

lemma Query.line_append (g : List Membership) (m : Membership) :
    q.line (g ++ [m]) = q.line g ++ ((if decide (g ≠ []) then [' '] else []) ++ q.word m) := by
  rw [Query.line, Query.line, List.append_assoc, List.map_append, List.map_singleton]
  by_cases hg : g = []
  · simp [hg]
  · rw [intercalate_concat (by simpa using hg)]
    simp [hg]

lemma Query.line_nil : q.line [] = q.head := by
  rw [Query.line, List.map_nil, List.intercalate_nil, List.append_nil]

lemma Query.length_head : (q.line []).length = q.chptr.chname.length + 4 := by
  simp [q.line_nil, Query.head]

lemma Query.loop_eq : (ms : List Membership) → (g : List Membership) → (flag : Bool) → (g = [] ∨ flag = true) →
    (g ≠ [] → q.chptr.chname.length + q.mlen + (q.line g).length + 125 ≤ bufSize) →
    ∃ groups : List (List Membership), groups.flatten = g ++ ms.filter q.lists ∧
      q.loop ms (q.line g) (decide (g ≠ [])) flag = groups.map q.line ∧ ∀ h ∈ groups, q.Fits (q.line h)
  | [], g, flag, hflag, hfit => by
    rw [Query.loop, List.filter_nil, List.append_nil]
    cases flag with
    | false =>
      obtain rfl := hflag.resolve_right (by decide)
      exact ⟨[], rfl, rfl, fun _ h => (by cases h)⟩
    | true =>
      refine ⟨[g], List.flatten_singleton, rfl, fun h hh => ?_⟩
      rw [List.mem_singleton.mp hh]
      by_cases hg : g = []
      · rw [hg]
        exact q.fits_short (by rw [q.length_head]; omega)
      · exact q.fits_within (hfit hg) (by omega)
  | m :: ms, g, flag, hflag, hfit => by
    rw [Query.loop]
    by_cases hm : q.lists m = true
    · rw [if_pos hm, List.filter_cons_of_pos hm, ← q.line_append, List.append_cons]
      have hword := q.length_word m
      have hlen : (q.line (g ++ [m])).length ≤ (q.line g).length + 1 + (q.word m).length := by
        rw [q.line_append, List.length_append, List.length_append]
        split
        · rw [List.length_singleton]
          omega
        · rw [List.length_nil]
          omega
      have hnew : q.Fits (q.line (g ++ [m])) := by
        by_cases hg : g = []
        · rw [hg, q.length_head] at hlen
          exact q.fits_short (by rw [hg]; omega)
        · exact q.fits_within (hfit hg) (by omega)
      dsimp only
      split
      · obtain ⟨groups, hflat, hloop, hall⟩ := Query.loop_eq ms [] false (Or.inl rfl) fun h => absurd rfl h
        refine ⟨(g ++ [m]) :: groups, by rw [List.flatten_cons, hflat]; rfl, ?_,
          List.forall_mem_cons.mpr ⟨hnew, hall⟩⟩
        rw [List.map_cons, ← hloop, ← q.line_nil]
        rfl
      · next hle =>
        have hne : g ++ [m] ≠ [] := by simp
        obtain ⟨groups, hflat, hloop, hall⟩ := Query.loop_eq ms (g ++ [m]) true (Or.inr rfl) fun _ => by
          rw [nickLen, userLen, hostLen] at hle
          omega
        rw [decide_eq_true hne] at hloop
        exact ⟨groups, hflat, hloop, hall⟩
    · rw [if_neg hm, List.filter_cons_of_neg hm]
      exact Query.loop_eq ms g flag hflag hfit

end Nefarious.Names

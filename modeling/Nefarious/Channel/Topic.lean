import Nefarious.Lib.Fifo
import Nefarious.Channel.Bounce

/-!
# Topics

A topic has a text and the time at which it was set. What is shown to the members is not modelled.

Names: `m_topic.c`.
-/

namespace Nefarious.Channel

open List (any_cons mem_map not_mem_nil)

open Lib.Fifo

/-- Longest topic. `ircd_defs.h`. -/
def topicLen : ℕ := 250

/-- The size of `topic_nick`. `channel.h` `struct Channel`; `NICKLEN`, `USERLEN`,
`HOSTLEN`. -/
def topicNickSize : ℕ := 30 + 10 + 75 + 3

/-! ## Colours -/

/-- The codes that colour text. `ircd_string.h` `COLOR_BOLD` … `COLOR_UNDERLINE`. -/
def isColor (c : Char) : Bool := c.toNat ∈ [2, 3, 29, 15, 22, 31]

/-- Whether a text has colours. `ircd_string.c`. -/
def hasColor (s : Str) : Bool := s.any isColor

/-- What is left of a text behind a colour code: up to two digits, and behind a comma up to two more.
`ircd_string.c` `StripColor` -/
def skipColor : Str → Str
  | a :: s =>
    if ¬ isDigit a then a :: s
    else
      let s := match s with
        | b :: s => if isDigit b then s else b :: s
        | [] => []
      match s with
      | ',' :: c :: s =>
        if ¬ isDigit c then ',' :: c :: s
        else match s with
          | d :: s => if isDigit d then s else d :: s
          | [] => []
      | s => s
  | [] => []

/-- Remove the colours of a text. Each round takes a character, so the length bounds the rounds.
`ircd_string.c` `StripColor` -/
def stripColorLoop : ℕ → Str → Str
  | 0, _ => []
  | _ + 1, [] => []
  | n + 1, c :: s =>
    if c.toNat = 3 then stripColorLoop n (skipColor s)
    else if isColor c then stripColorLoop n s
    else c :: stripColorLoop n s

/-- Remove the colours of a text. `ircd_string.c`. -/
def stripColor (s : Str) : Str := stripColorLoop s.length s

/-! ## Setting a topic -/

/-- The source of a TOPIC. `do_settopic` (`sptr`). -/
structure TopicSource where
  numnick : Str
  name : Str
  username : Str
  host : Str
  isServer : Bool
  num_len : numnick.length ≤ 5
  num_word : IsWord numnick

/-- The features that setting a topic reads. `ircd_features.h`. -/
structure TopicFeat where
  hostInTopic : Bool
  hisBanwho : Bool
  /-- The server that hides the others. -/
  his : TopicSource

/-- What TOPIC reads and writes of a channel. `channel.h` `struct Channel`. -/
structure TopicChan where
  chname : Str
  creationtime : ℤ
  topiclimit : Bool
  nocolor : Bool
  stripcolor : Bool
  topic : Str
  topicNick : Str
  topicTime : ℤ

/-- A time as it is printed. `ircd_snprintf.c` (`%Tu`). -/
def printTime (t : ℤ) : Str := digits (t % 2 ^ 64).toNat

/-- The line for other servers. `do_settopic` (`"%H %s %Tu %Tu :%s"`, `"%H %Tu %Tu :%s"`). -/
def topicLine (source : TopicSource) (c : TopicChan) (setter : Option Str) : Str :=
  msgqMake (source.numnick ++ spaced ["T".toList] ++
    (spaced (c.chname :: (setter.map (fun _ => c.topicNick)).toList ++
      [printTime c.creationtime, printTime c.topicTime]) ++ ' ' :: ':' :: c.topic))

/-- The name that is remembered with a topic. `do_settopic`. -/
def topicNickOf (feat : TopicFeat) (sptr : TopicSource) (setter : Option Str) : Str :=
  match setter with
  | some setter => ircdStrncpy [] setter topicNickSize
  | none =>
    let from_ := if feat.hisBanwho ∧ sptr.isServer then feat.his else sptr
    if feat.hostInTopic then
      (from_.name ++ '!' :: from_.username ++ '@' :: from_.host).take (topicNickSize - 1)
    else ircdStrncpy [] from_.name topicNickSize

/-- Set the topic: the channel afterwards, and the line for servers if the channel is not a local one. -/
def doSettopic (feat : TopicFeat) (now : ℤ) (sptr : TopicSource) (c : TopicChan) (topic : Str)
    (ts : ℤ) (setter : Option Str) : TopicChan × List Str :=
  let c := { c with
    topic := ircdStrncpy c.topic topic (topicLen + 1),
    topicNick := topicNickOf feat sptr setter,
    topicTime := if ts ≠ 0 then ts else now }
  (c, if c.chname.head? = some '&' then [] else [topicLine sptr c setter])

/-- Split a list of names. `ircd_string.c` `ircd_strtok`. -/
def nameList (s : Str) : List Str := (s.splitOn ',').filter (· ≠ [])

/-- A name is the one of the channel. `m_topic` (`IsChannelName`, `FindChannel`). -/
def TopicChan.named (c : TopicChan) (name : Str) : Bool :=
  (name.head? = some '#' ∨ name.head? = some '&') ∧ strEq name c.chname

/-! ## The command of a local user -/

/-- A local user. `m_topic`. -/
structure TopicUser extends TopicSource where
  member : Bool
  chanOp : Bool
  halfOp : Bool
  /-- `client_can_send_to_channel`. -/
  canSend : Bool

/-- The topic that a user is allowed to set, if it is: colours are refused or removed where the channel says so.
`m_topic` -/
def allowedTopic (user : TopicUser) (c : TopicChan) (topic : Str) : Option Str :=
  if ¬ user.member then none
  else if c.topiclimit ∧ ¬ user.chanOp ∧ ¬ user.halfOp then none
  else if ¬ user.canSend then none
  else if hasColor topic ∧ c.nocolor then none
  else if hasColor topic ∧ c.stripcolor then some (stripColor topic)
  else some topic

/-- The loop over the names. `m_topic`. -/
def mTopicNames (feat : TopicFeat) (now : ℤ) (user : TopicUser) (topic : Str) :
    List Str → TopicChan → TopicChan × List Str
  | [], c => (c, [])
  | name :: names, c =>
    let (c, lines) :=
      if c.named name then
        match allowedTopic user c topic with
        | none => (c, [])
        | some t => doSettopic feat now user.toTopicSource c t 0 none
      else (c, [])
    let (c, lines') := mTopicNames feat now user topic names c
    (c, lines ++ lines')

/-- TOPIC of a local user; `parv` starts with the names. Without a topic it is a question. -/
def mTopic (feat : TopicFeat) (now : ℤ) (user : TopicUser) (parv : List Str) (c : TopicChan) :
    TopicChan × List Str :=
  match parv with
  | [] => (c, [])
  | [_] => (c, [])
  | names :: rest => mTopicNames feat now user (rest.getLastD []) (nameList names) c

/-! ## The message of a server -/

/-- What is left of the setter when its nick has been cut out. `ircd_string.c` `ircd_strtok`. -/
def cutSetter (setter : Str) : Str :=
  setter.takeWhile (· = '!') ++ (setter.dropWhile (· = '!')).takeWhile (· ≠ '!')

/-- The loop over the names: a topic is dropped when the channel is older than the one it was set on, or has a
newer topic. `ms_topic` -/
def msTopicNames (feat : TopicFeat) (now : ℤ) (sptr : TopicSource) (creation ts : ℤ) (topic : Str) :
    Option Str → List Str → TopicChan → TopicChan × List Str
  | _, [], c => (c, [])
  | setter, name :: names, c =>
    if c.named name ∧ name.head? ≠ some '&' ∧ ¬ (creation ≠ 0 ∧ c.creationtime < creation) ∧
        ¬ (ts ≠ 0 ∧ ts < c.topicTime) then
      let (c, lines) := doSettopic feat now sptr c topic ts setter
      let (c, lines') := msTopicNames feat now sptr creation ts topic (setter.map cutSetter) names c
      (c, lines ++ lines')
    else msTopicNames feat now sptr creation ts topic setter names c

/-- The parameter that stands `k` places before the end, if there are more than `k`. `ms_topic` (`parv[parc -
k]`) -/
def fromEnd (parv : List Str) (k : ℕ) : Option Str := parv.reverse[k]?

/-- TOPIC from a server; `parv` starts with the names. -/
def msTopic (feat : TopicFeat) (now : ℤ) (sptr : TopicSource) (parv : List Str) (c : TopicChan) :
    TopicChan × List Str :=
  match parv with
  | [] => (c, [])
  | [_] => (c, [])
  | names :: rest =>
    -- The names themselves are never one of the three optional parameters.
    let creation := ((fromEnd rest 2).map atoi).getD 0
    let ts := ((fromEnd rest 1).map atoi).getD 0
    msTopicNames feat now sptr creation ts (rest.getLastD []) (fromEnd rest 3) (nameList names) c

/-! ## The network -/

/-- A TOPIC message on its way: its line, and the client that its prefix names. `send.c`
`sendcmdto_serv_butone` -/
structure TopicMsg where
  source : TopicSource
  line : Str

/-- The time that a message carries. `ms_topic`. -/
def TopicMsg.time (m : TopicMsg) : ℤ := ((fromEnd (messageParams m.line) 1).map atoi).getD 0

/-- The topic that a message carries. `ms_topic`. -/
def TopicMsg.topic (m : TopicMsg) : Str := (messageParams m.line).getLastD []

section Network

variable {ι : Type*} [DecidableEq ι] (G : SimpleGraph ι) [DecidableRel G.Adj] (feat : ι → TopicFeat)

/-- Send lines to all servers but one. `send.c` `sendcmdto_serv_butone`. -/
def servButone (u : ι) (one : Option ι) (source : TopicSource) (lines : List Str) : ι → List TopicMsg :=
  fun w => if G.Adj u w ∧ some w ≠ one then lines.map (TopicMsg.mk source) else []

/-- The state after a TOPIC of a local user of the server `u`, whose clock reads `now`. `m_topic` -/
def topicCommand (n : Net ι TopicChan TopicMsg) (u : ι) (user : TopicUser) (now : ℤ)
    (parv : List Str) : Net ι TopicChan TopicMsg :=
  let r := mTopic (feat u) now user parv (n.node u)
  n.put u r.1 (servButone G u none user.toTopicSource r.2)

/-- The state after the server `v` has read the message `m` from `u`. `ms_topic` -/
def topicArrival (n : Net ι TopicChan TopicMsg) (u v : ι) (m : TopicMsg) (now : ℤ) :
    Net ι TopicChan TopicMsg :=
  let r := msTopic (feat v) now m.source (messageParams m.line) (n.node v)
  (n.pop u v).put v r.1 (servButone G v (some u) m.source r.2)

/-- The name of a channel that servers share. `IsGlobalChannel`; `m_join.c`
`clean_channelname`. -/
structure IsGlobalName (name : Str) : Prop where
  head : name.head? = some '#'
  irc : name.all isIrcCh = true
  len : name.length ≤ channelLen

/-- All servers have the same channel, with the same topic, and nothing is on its way. -/
structure Synced (n : Net ι TopicChan TopicMsg) : Prop where
  quiet : n.Quiet
  name : ∀ u, IsGlobalName (n.node u).chname
  same : ∀ u v, strEq (n.node u).chname (n.node v).chname = true
  creation : ∀ u v, (n.node u).creationtime = (n.node v).creationtime
  time : ∀ u, 0 ≤ (n.node u).creationtime ∧ (n.node u).creationtime < 2 ^ 63
  topic : ∀ u v, (n.node u).topic = (n.node v).topic
  topicTime : ∀ u v, (n.node u).topicTime = (n.node v).topicTime

/-- The topic that a command sets, if it sets one. `m_topic`. -/
def requestedTopic (user : TopicUser) (parv : List Str) (c : TopicChan) : Option Str :=
  match parv with
  | [] => none
  | [_] => none
  | names :: rest =>
    if (nameList names).any c.named then allowedTopic user c (rest.getLastD []) else none

/-- The clock of the server `u` is good for the topic `t`: its reading is a time that fits an int, it
is not behind the topic that the server has, and no other topic of the same second is on its way to
the server. -/
structure ClockOk (n : Net ι TopicChan TopicMsg) (u : ι) (now : ℤ) (t : Str) : Prop where
  pos : 0 < now
  int : now < 2 ^ 31
  notBehind : (n.node u).topicTime ≤ now
  crossing : ∀ w a b, Facing G u w a b → ∀ m ∈ n.queue a b, m.time = now → m.topic = t.take topicLen

/-- A condition on a command of a local user: on the state before it, the server, the user, the reading
of the server's clock and the parameters. -/
abbrev CommandCond (ι : Type*) :=
  Net ι TopicChan TopicMsg → ι → TopicUser → ℤ → List Str → Prop

/-- If the command sets a topic, the clock is good for it. -/
def goodClock : CommandCond ι := fun n u user now parv =>
  ∀ t, requestedTopic user parv (n.node u) = some t → ClockOk G n u now t

/-- The states that are reached from a common topic by commands of local users that meet the condition, and by
arrivals, in any order. The clock of a server that reads a message may show any time. `m_topic`, `ms_topic` -/
inductive TopicRun (ok : CommandCond ι) : Net ι TopicChan TopicMsg → Prop
  | start {n : Net ι TopicChan TopicMsg} (h : Synced n) : TopicRun ok n
  | command {n : Net ι TopicChan TopicMsg} (h : TopicRun ok n) (u : ι) (user : TopicUser) (now : ℤ)
      (parv : List Str) (hok : ok n u user now parv) :
      TopicRun ok (topicCommand G feat n u user now parv)
  | arrival {n : Net ι TopicChan TopicMsg} (h : TopicRun ok n) {u v : ι} {m : TopicMsg}
      {rest : List TopicMsg} (now : ℤ) (hq : n.queue u v = m :: rest) :
      TopicRun ok (topicArrival G feat n u v m now)

end Network

/-! ## Lines are read back -/

lemma IsGlobalName.word {name : Str} (h : IsGlobalName name) : IsWord name :=
  IsRedirect.word ⟨Or.inl h.head, h.irc, h.len⟩

lemma IsGlobalName.nameList {name : Str} (h : IsGlobalName name) : nameList name = [name] := by
  have hcomma : ',' ∉ name := fun hc => absurd (List.all_eq_true.1 h.irc _ hc) (by decide)
  have hsplit : name.splitOn ',' = [name] := List.splitOn_eq_singleton hcomma
  unfold Channel.nameList
  rw [hsplit, List.filter_cons_of_pos (by simpa using h.word.ne_nil), List.filter_nil]

/-- What a line needs to be read back: a channel that servers share, with a topic that a clock has set. -/
structure LineReady (c : TopicChan) : Prop where
  name : IsGlobalName c.chname
  creation : 0 ≤ c.creationtime ∧ c.creationtime < 2 ^ 63
  topic : c.topic.length ≤ topicLen
  time : 0 < c.topicTime ∧ c.topicTime < 2 ^ 31

lemma length_printTime (t : ℤ) : (printTime t).length ≤ 20 := by
  apply Nat.toDigits_length 10 _ 20 (by decide)
  omega

lemma printTime_eq {t : ℤ} (h : 0 ≤ t ∧ t < 2 ^ 63) : printTime t = digits t.toNat := by
  unfold printTime
  rw [Int.emod_eq_of_lt h.1 (by omega)]

lemma messageParams_topicLine (s : TopicSource) {c : TopicChan} (h : LineReady c) :
    messageParams (topicLine s c none) =
      [c.chname, printTime c.creationtime, printTime c.topicTime, c.topic] := by
  have hlen : (s.numnick ++ spaced ["T".toList] ++ (spaced (c.chname ::
      [printTime c.creationtime, printTime c.topicTime]) ++ ' ' :: ':' :: c.topic)).length ≤ 510 := by
    have h1 := s.num_len
    have h2 := h.name.len
    have h3 := length_printTime c.creationtime
    have h4 : (printTime c.topicTime).length ≤ 10 := by
      rw [printTime_eq ⟨h.time.1.le, h.time.2.trans (by decide)⟩]
      apply Nat.toDigits_length 10 _ 10 (by decide)
      have := h.time
      omega
    have h5 := h.topic
    have ht : ("T".toList).length = 1 := rfl
    simp only [channelLen] at h2
    simp only [topicLen] at h5
    simp only [spaced_cons, spaced_nil, List.length_append, List.length_cons, List.length_nil]
    omega
  have hline : topicLine s c none = s.numnick ++ spaced ["T".toList] ++ (spaced (c.chname ::
      [printTime c.creationtime, printTime c.topicTime]) ++ ' ' :: ':' :: c.topic) :=
    List.take_of_length_le hlen
  have hb : StartsBlank (' ' :: ':' :: c.topic) := Or.inr rfl
  rw [hline, messageParams_line s.num_word (by decide) (startsBlank_spaced _ hb)]
  have hws : ∀ w ∈ [c.chname, printTime c.creationtime, printTime c.topicTime], IsWord w := by
    intro w hw
    simp only [List.mem_cons, not_mem_nil, or_false] at hw
    obtain rfl | rfl | rfl := hw
    · exact h.name.word
    · exact isWord_digits _
    · exact isWord_digits _
  have hread := parseParams_words hws hb (show 12 ≠ 0 by decide)
  rw [parseParams_trailing (by decide)] at hread
  exact hread

/-- The topic and its time: what servers are to agree on. `channel.h` `struct Channel`. -/
def TopicChan.value (c : TopicChan) : Str × ℤ := (c.topic, c.topicTime)

/-- The topic and the time of a message. -/
def TopicMsg.value (m : TopicMsg) : Str × ℤ := (m.topic, m.time)

lemma value_topicLine (s : TopicSource) {c : TopicChan} (h : LineReady c) :
    (TopicMsg.mk s (topicLine s c none)).value = c.value := by
  have ht : atoi (printTime c.topicTime) = c.topicTime := by
    have := h.time
    rw [printTime_eq ⟨by omega, by omega⟩, atoi_digits_of_lt (by omega)]
    omega
  simp [TopicMsg.value, TopicMsg.topic, TopicMsg.time, TopicChan.value, fromEnd,
    messageParams_topicLine s h, ht]

lemma msTopic_topicLine (feat : TopicFeat) (now : ℤ) (s : TopicSource) {c : TopicChan}
    (h : LineReady c) (d : TopicChan) (hname : strEq c.chname d.chname = true)
    (hcr : d.creationtime = c.creationtime) :
    msTopic feat now s (messageParams (topicLine s c none)) d =
      if c.topicTime < d.topicTime then (d, [])
      else doSettopic feat now s d c.topic c.topicTime none := by
  have ht : atoi (printTime c.topicTime) = c.topicTime := by
    have := h.time
    rw [printTime_eq ⟨by omega, by omega⟩, atoi_digits_of_lt (by omega)]
    omega
  have hct : ¬ d.creationtime < atoi (printTime c.creationtime) := by
    have := h.creation
    have hle := atoi_digits_le c.creationtime.toNat
    rw [printTime_eq h.creation, hcr]
    omega
  have hnamed : d.named c.chname = true := by
    simp [TopicChan.named, h.name.head, hname]
  have hloc : c.chname.head? ≠ some '&' := by
    rw [h.name.head]
    decide
  have hne : c.topicTime ≠ 0 := h.time.1.ne'
  rw [messageParams_topicLine s h]
  simp only [msTopic, h.name.nameList, fromEnd, List.reverse_cons, List.reverse_nil, List.nil_append,
    List.cons_append, List.getElem?_cons_succ, List.getElem?_cons_zero, List.getElem?_nil,
    Option.map_some, Option.getD_some, List.getLastD_cons, List.getLastD_nil, ht]
  by_cases hlt : c.topicTime < d.topicTime
  · simp [msTopicNames, hlt, hne]
  · simp [msTopicNames, hlt, hnamed, hloc, hct]

/-! ## What a command does -/

/-- The channel after a topic has been set by a local user. `do_settopic`. -/
def TopicChan.settled (feat : TopicFeat) (now : ℤ) (user : TopicUser) (t : Str) (c : TopicChan) :
    TopicChan :=
  { c with topic := t.take topicLen, topicNick := topicNickOf feat user.toTopicSource none,
           topicTime := now }

section Command

variable (feat : TopicFeat) (now : ℤ) (user : TopicUser)

lemma doSettopic_clock (t : Str) {c : TopicChan} (hc : c.chname.head? = some '#') :
    doSettopic feat now user.toTopicSource c t 0 none = (c.settled feat now user t,
        [topicLine user.toTopicSource (c.settled feat now user t) none]) := by
  simp [doSettopic, TopicChan.settled, hc, ircdStrncpy]

lemma mTopicNames_none {topic : Str} {c : TopicChan} (names : List Str)
    (h : allowedTopic user c topic = none ∨ names.any c.named = false) :
    mTopicNames feat now user topic names c = (c, []) := by
  induction names with
  | nil => rfl
  | cons name names ih =>
    have hrest : mTopicNames feat now user topic names c = (c, []) := by
      apply ih
      refine h.imp_right (fun hn => ?_)
      rw [any_cons, Bool.or_eq_false_iff] at hn
      exact hn.2
    by_cases hname : c.named name = true
    · have hall : allowedTopic user c topic = none := by
        refine h.resolve_right (fun hn => ?_)
        rw [any_cons, hname] at hn
        exact absurd hn (by simp)
      simp only [mTopicNames, hname, if_true, hall, hrest, List.append_nil]
    · simp only [mTopicNames, hname, hrest, Bool.false_eq_true, if_false, List.append_nil]

lemma mTopicNames_some {topic t : Str} (names : List Str) : ∀ c : TopicChan, c.chname.head? = some '#' →
    allowedTopic user c topic = some t → names.any c.named = true → ∃ k,
    mTopicNames feat now user topic names c = (c.settled feat now user t,
    List.replicate (k + 1) (topicLine user.toTopicSource (c.settled feat now user t) none)) := by
  induction names with
  | nil => exact fun _ _ _ hn => absurd hn (by simp)
  | cons name names ih =>
    intro c hc ht hn
    by_cases hname : c.named name = true
    · have hhead : mTopicNames feat now user topic (name :: names) c =
          ((mTopicNames feat now user topic names (c.settled feat now user t)).1,
            topicLine user.toTopicSource (c.settled feat now user t) none ::
              (mTopicNames feat now user topic names (c.settled feat now user t)).2) := by
        simp only [mTopicNames, hname, if_true, ht, doSettopic_clock feat now user t hc]
        rfl
      -- A topic that has been set once is set again by a second name.
      by_cases hrest : names.any c.named = true
      · obtain ⟨k, hk⟩ := ih (c.settled feat now user t) hc ht hrest
        rw [hhead, hk]
        exact ⟨k + 1, rfl⟩
      · have hnone : mTopicNames feat now user topic names (c.settled feat now user t) =
            (c.settled feat now user t, []) :=
          mTopicNames_none feat now user names (Or.inr (eq_false_of_ne_true hrest))
        rw [hhead, hnone]
        exact ⟨0, rfl⟩
    · have hrest : names.any c.named = true := by
        rw [any_cons, Bool.or_eq_true] at hn
        exact hn.resolve_left hname
      obtain ⟨k, hk⟩ := ih c hc ht hrest
      refine ⟨k, ?_⟩
      simp only [mTopicNames, hname, hk, Bool.false_eq_true, if_false, List.nil_append]

lemma mTopic_cases (parv : List Str) {c : TopicChan} (hc : c.chname.head? = some '#') :
    (requestedTopic user parv c = none ∧ mTopic feat now user parv c = (c, [])) ∨ ∃ t k,
    requestedTopic user parv c = some t ∧ mTopic feat now user parv c = (c.settled feat now user t,
    List.replicate (k + 1) (topicLine user.toTopicSource (c.settled feat now user t) none)) := by
  match parv with
  | [] => exact .inl ⟨rfl, rfl⟩
  | [_] => exact .inl ⟨rfl, rfl⟩
  | names :: arg :: rest =>
    simp only [requestedTopic, mTopic]
    by_cases hn : (nameList names).any c.named = true
    · rw [if_pos hn]
      cases ht : allowedTopic user c ((arg :: rest).getLastD []) with
      | none => exact .inl ⟨rfl, mTopicNames_none feat now user _ (Or.inl ht)⟩
      | some t =>
        obtain ⟨k, hk⟩ := mTopicNames_some feat now user _ c hc ht hn
        exact .inr ⟨t, k, rfl, hk⟩
    · rw [if_neg hn]
      exact .inl ⟨rfl, mTopicNames_none feat now user _ (Or.inr (eq_false_of_ne_true hn))⟩

end Command

/-! ## The topic is a register -/

section Refinement

variable {ι : Type*} [DecidableEq ι] {G : SimpleGraph ι} [DecidableRel G.Adj] {feat : ι → TopicFeat}

/-- The register that the servers hold. -/
def register (n : Net ι TopicChan TopicMsg) : Net ι (Str × ℤ) (Str × ℤ) where
  node := fun u => (n.node u).value
  queue := fun a b => (n.queue a b).map TopicMsg.value

lemma register_put (n : Net ι TopicChan TopicMsg) (u : ι) (c : TopicChan) (out : ι → List TopicMsg) :
    register (n.put u c out) = (register n).put u c.value (fun w => (out w).map TopicMsg.value) := by
  refine congrArg₂ Net.mk (funext fun v => ?_) (funext fun a => funext fun b => ?_)
  · by_cases hv : v = u
    · obtain rfl := hv
      simp
    · simp [Net.put_node_of_ne n c out hv, Function.update_of_ne hv, register]
  · by_cases ha : a = u
    · obtain rfl := ha
      simp [register]
    · simp [Net.put_queue_of_ne n c out b ha, ha, register]

lemma register_pop (n : Net ι TopicChan TopicMsg) (u v : ι) :
    register (n.pop u v) = (register n).pop u v := by
  refine congrArg₂ Net.mk rfl (funext fun a => funext fun b => ?_)
  by_cases hab : a = u ∧ b = v
  · obtain ⟨rfl, rfl⟩ := hab
    simp [register, List.map_tail]
  · simp [Net.pop_queue_of_ne n hab, hab, register]

/-- The servers have the same channel, and every message was made of a channel that was ready for it. -/
structure TopicBase (n : Net ι TopicChan TopicMsg) : Prop where
  name : ∀ u, IsGlobalName (n.node u).chname
  same : ∀ u v, strEq (n.node u).chname (n.node v).chname = true
  creation : ∀ u v, (n.node u).creationtime = (n.node v).creationtime
  time : ∀ u, 0 ≤ (n.node u).creationtime ∧ (n.node u).creationtime < 2 ^ 63
  line : ∀ a b, ∀ m ∈ n.queue a b, ∃ c : TopicChan, LineReady c ∧ m.line = topicLine m.source c none ∧
    ∀ u, strEq c.chname (n.node u).chname = true ∧ (n.node u).creationtime = c.creationtime

/-- What holds of every state that is reached: besides, the topic is a register in order. -/
structure TopicInv (G : SimpleGraph ι) (n : Net ι TopicChan TopicMsg) : Prop extends TopicBase n where
  register : Inv Prod.snd G (register n)

lemma Synced.inv {n : Net ι TopicChan TopicMsg} (h : Synced n) : TopicInv G n where
  name := h.name
  same := h.same
  creation := h.creation
  time := h.time
  line a b m hm := by
    rw [h.quiet a b] at hm
    exact absurd hm not_mem_nil
  register := by
    refine inv_of_same (fun a b => ?_) (fun u v => Prod.ext (h.topic u v) (h.topicTime u v))
    simp [Channel.register, h.quiet a b]

/-- Two channels differ at most in their topics. -/
def SameBase (c c' : TopicChan) : Prop := c'.chname = c.chname ∧ c'.creationtime = c.creationtime

lemma TopicBase.put {n : Net ι TopicChan TopicMsg} (h : TopicBase n) {u : ι} {c : TopicChan}
    (hb : SameBase (n.node u) c) {out : ι → List TopicMsg}
    (ho : ∀ w, ∀ m ∈ out w, ∃ d : TopicChan, LineReady d ∧ m.line = topicLine m.source d none ∧
      SameBase (n.node u) d) : TopicBase (n.put u c out) := by
  have hbase : ∀ v, SameBase (n.node v) ((n.put u c out).node v) := by
    intro v
    by_cases hv : v = u
    · obtain rfl := hv
      rw [Net.put_node_self]
      exact hb
    · rw [Net.put_node_of_ne n c out hv]
      exact ⟨rfl, rfl⟩
  refine ⟨fun v => ?_, fun v w => ?_, fun v w => ?_, fun v => ?_, fun a b m hm => ?_⟩
  · rw [(hbase v).1]
    exact h.name v
  · rw [(hbase v).1, (hbase w).1]
    exact h.same v w
  · rw [(hbase v).2, (hbase w).2]
    exact h.creation v w
  · rw [(hbase v).2]
    exact h.time v
  · rcases Net.mem_put_iff.1 hm with hold | ⟨-, hnew⟩
    · obtain ⟨d, hd, hl, hs⟩ := h.line a b m hold
      refine ⟨d, hd, hl, fun v => ?_⟩
      rw [(hbase v).1, (hbase v).2]
      exact hs v
    · obtain ⟨d, hd, hl, hs⟩ := ho b m hnew
      refine ⟨d, hd, hl, fun v => ?_⟩
      rw [(hbase v).1, (hbase v).2, hs.1, hs.2]
      exact ⟨h.same u v, h.creation v u⟩

lemma TopicBase.pop {n : Net ι TopicChan TopicMsg} (h : TopicBase n) (u v : ι) : TopicBase (n.pop u v) :=
  ⟨h.name, h.same, h.creation, h.time, fun a b m hm => h.line a b m (Net.mem_of_mem_pop hm)⟩

lemma doSettopic_time (feat : TopicFeat) (now : ℤ) (s : TopicSource) {c d : TopicChan} (hc : LineReady c)
    (hd : IsGlobalName d.chname) (ht : 0 ≤ d.creationtime ∧ d.creationtime < 2 ^ 63) : ∃ e,
    doSettopic feat now s d c.topic c.topicTime none = (e, [topicLine s e none]) ∧ SameBase d e ∧ e.value =
    c.value ∧ LineReady e := by
  have htake : c.topic.take topicLen = c.topic := List.take_of_length_le hc.topic
  refine ⟨{ d with topic := c.topic, topicNick := topicNickOf feat s none, topicTime := c.topicTime },
    ?_, ⟨rfl, rfl⟩, rfl, ⟨hd, ht, hc.topic, hc.time⟩⟩
  simp [doSettopic, hd.head, ircdStrncpy, htake, hc.time.1.ne']

lemma servButone_nil (u : ι) (one : Option ι) (s : TopicSource) : servButone G u one s [] = fun _ => [] := by
  funext w
  simp [servButone]

lemma mem_servButone {u w : ι} {one : Option ι} {s : TopicSource} {lines : List Str} {m : TopicMsg}
    (hm : m ∈ servButone G u one s lines w) : m.source = s ∧ m.line ∈ lines := by
  unfold servButone at hm
  split at hm
  · obtain ⟨l, hl, rfl⟩ := mem_map.1 hm
    exact ⟨rfl, hl⟩
  · exact absurd hm not_mem_nil

lemma TopicInv.command {n : Net ι TopicChan TopicMsg} (h : TopicInv G n) (u : ι) (user : TopicUser)
    (now : ℤ) (parv : List Str) (hok : goodClock G n u user now parv) :
    TopicInv G (topicCommand G feat n u user now parv) := by
  obtain ⟨-, hnone⟩ | ⟨t, k, ht, hsome⟩ := mTopic_cases (feat u) now user parv (h.name u).head
  · have hput : topicCommand G feat n u user now parv = n := by
      unfold topicCommand
      rw [hnone]
      show n.put u (n.node u) (servButone G u none user.toTopicSource []) = n
      rw [servButone_nil]
      exact n.put_self u
    rw [hput]
    exact h
  · have hclock := hok t ht
    set c := (n.node u).settled (feat u) now user t with hcdef
    have hready : LineReady c :=
      ⟨h.name u, h.time u, by simp [hcdef, TopicChan.settled], ⟨hclock.pos, hclock.int⟩⟩
    have hval := value_topicLine user.toTopicSource hready
    unfold topicCommand
    rw [hsome]
    have hbase : SameBase (n.node u) c := ⟨rfl, rfl⟩
    refine ⟨h.toTopicBase.put hbase (fun w m hm => ?_), ?_⟩
    · obtain ⟨hs, hl⟩ := mem_servButone hm
      refine ⟨c, hready, ?_, rfl, rfl⟩
      rw [(List.mem_replicate.1 hl).2, hs]
    · -- The command is a write to the register, told as often as the channel is named.
      have hin : InOrder Prod.snd G (Channel.register n) u c.value := by
        refine ⟨hclock.notBehind, fun w a b hf y hy he => ?_⟩
        obtain ⟨m, hm, rfl⟩ := mem_map.1 hy
        exact Prod.ext (hclock.crossing w a b hf m hm he) he
      have hw := h.register.write_replicate hin k
      rw [register_put]
      refine (congrArg (fun out => Inv Prod.snd G ((Channel.register n).put u c.value out))
        (funext fun w => ?_)).mp hw
      by_cases huw : G.Adj u w
      · simp [servButone, huw, hval]
      · simp [servButone, huw]

lemma TopicInv.arrival {n : Net ι TopicChan TopicMsg} (h : TopicInv G n) {u v : ι} {m : TopicMsg}
    {rest : List TopicMsg} (now : ℤ) (hq : n.queue u v = m :: rest) :
    TopicInv G (topicArrival G feat n u v m now) := by
  obtain ⟨c, hready, hline, hsame⟩ := h.line u v m (by rw [hq]; exact List.mem_cons_self)
  have hval : m.value = c.value := by
    rw [show m = ⟨m.source, topicLine m.source c none⟩ by rw [← hline]]
    exact value_topicLine m.source hready
  have hqr : (Channel.register n).queue u v = c.value :: rest.map TopicMsg.value := by
    simp [Channel.register, hq, hval]
  have hms := msTopic_topicLine (feat v) now m.source hready (n.node v) (hsame v).1 (hsame v).2
  unfold topicArrival
  rw [hline, hms]
  by_cases hlt : c.topicTime < (n.node v).topicTime
  · rw [if_pos hlt]
    have hput : (n.pop u v).put v (n.node v) (servButone G v (some u) m.source []) = n.pop u v := by
      rw [servButone_nil]
      exact (n.pop u v).put_self v
    show TopicInv G ((n.pop u v).put v (n.node v) (servButone G v (some u) m.source []))
    rw [hput]
    refine ⟨h.toTopicBase.pop u v, ?_⟩
    rw [register_pop]
    exact h.register.keep hqr hlt
  · rw [if_neg hlt]
    obtain ⟨d, hd, hbase, hdval, hdready⟩ := doSettopic_time (feat v) now m.source hready (h.name v) (h.time v)
    rw [hd]
    refine ⟨(h.toTopicBase.pop u v).put hbase (fun w m' hm' => ?_), ?_⟩
    · obtain ⟨hs, hl⟩ := mem_servButone hm'
      refine ⟨d, hdready, ?_, hbase⟩
      rw [List.mem_singleton.1 hl, hs]
    · rw [register_put, register_pop, hdval]
      refine (congrArg (fun out => Inv Prod.snd G (((Channel.register n).pop u v).put v c.value out))
        (funext fun w => ?_)).mp (h.register.take hqr (not_lt.1 hlt))
      have hv := value_topicLine m.source hdready
      by_cases hvw : G.Adj v w ∧ some w ≠ some u
      · rw [flood, if_pos hvw, servButone, if_pos hvw, List.map_map, List.map_singleton]
        exact congrArg (fun x => [x]) (hdval.symm.trans hv.symm)
      · rw [flood, if_neg hvw, servButone, if_neg hvw, List.map_nil]
lemma TopicRun.inv {n : Net ι TopicChan TopicMsg} (h : TopicRun G feat (goodClock G) n) : TopicInv G n := by
  induction h with
  | start h => exact h.inv
  | command _ u user now parv hok ih => exact ih.command u user now parv hok
  | arrival _ now hq ih => exact ih.arrival now hq

/-- **All servers agree on the topic**: in every run in which every topic is set with a good clock, once every
message has arrived, any two servers have the same topic, of the same time. -/
theorem topic_agree (hG : G.Connected) {n : Net ι TopicChan TopicMsg}
    (h : TopicRun G feat (goodClock G) n) (hq : n.Quiet) (u v : ι) :
    (n.node u).topic = (n.node v).topic ∧ (n.node u).topicTime = (n.node v).topicTime := by
  have hquiet : (register n).Quiet := fun a b => by simp [register, hq a b]
  have hval := h.inv.register.agree_of_quiet hquiet hG u v
  exact ⟨congrArg Prod.fst hval, congrArg Prod.snd hval⟩

end Refinement

/-! ## Two servers -/

def sampleUser (numnick : Str) (h : numnick.length ≤ 5) (hw : IsWord numnick) : TopicUser :=
  { numnick := numnick, name := "nick".toList, username := "user".toList, host := "host".toList,
    isServer := false, num_len := h, num_word := hw, member := true, chanOp := true, halfOp := false,
    canSend := true }

/-- The user of the one server, and of the other. -/
def userOf (server : Bool) : TopicUser :=
  if server then sampleUser "ABAAA".toList length_abaaa isWord_abaaa
  else sampleUser "ACAAA".toList (by decide) (by decide)

def sampleFeat : TopicFeat := ⟨false, false, (userOf true).toTopicSource⟩

def sampleTopicChan : TopicChan := ⟨"#c".toList, 5, true, false, false, [], [], 0⟩

def sampleNet : Net Bool TopicChan TopicMsg where
  node := fun _ => sampleTopicChan
  queue := fun _ _ => []

/-- A server sets a topic while its clock reads `now`. -/
def sampleSet (n : Net Bool TopicChan TopicMsg) (u : Bool) (now : ℤ) (t : Str) :
    Net Bool TopicChan TopicMsg :=
  topicCommand ⊤ (fun _ => sampleFeat) n u (userOf u) now ["#c".toList, t]

def sampleRead (n : Net Bool TopicChan TopicMsg) (u : Bool) : Net Bool TopicChan TopicMsg :=
  match n.queue u !u with
  | [] => n
  | m :: _ => topicArrival ⊤ (fun _ => sampleFeat) n u (!u) m 0

lemma synced_sampleNet : Synced sampleNet where
  quiet _ _ := rfl
  name _ := show IsGlobalName sampleTopicChan.chname from ⟨rfl, by decide, by decide⟩
  same _ _ := strEq_refl _
  creation _ _ := rfl
  time _ := show 0 ≤ sampleTopicChan.creationtime ∧ sampleTopicChan.creationtime < 2 ^ 63 by decide
  topic _ _ := rfl
  topicTime _ _ := rfl

lemma TopicRun.sampleRead {ok : CommandCond Bool} {n : Net Bool TopicChan TopicMsg}
    (h : TopicRun ⊤ (fun _ => sampleFeat) ok n) (u : Bool) :
    TopicRun ⊤ (fun _ => sampleFeat) ok (sampleRead n u) := by
  unfold Channel.sampleRead
  split
  · exact h
  · next m rest hq => exact h.arrival 0 hq

/-- **A topic that is set and read by the other server**: both have it. -/
theorem topic_agree_one : ((sampleRead (sampleSet sampleNet true 10 "a".toList) true).node true).topic =
        ((sampleRead (sampleSet sampleNet true 10 "a".toList) true).node false).topic ∧
      ((sampleRead (sampleSet sampleNet true 10 "a".toList) true).node true).topicTime =
        ((sampleRead (sampleSet sampleNet true 10 "a".toList) true).node false).topicTime := by
  refine @topic_agree Bool _ ⊤ _ (fun _ => sampleFeat) SimpleGraph.connected_top _
    (((TopicRun.start synced_sampleNet).command true (userOf true) 10 ["#c".toList, "a".toList]
      (fun t _ => ⟨by decide, by decide, by decide,
        fun w a b _ m hm => absurd hm not_mem_nil⟩)).sampleRead true) ?_ true false
  have hq : ∀ a b : Bool, (sampleRead (sampleSet sampleNet true 10 "a".toList) true).queue a b = [] := by
    decide +kernel
  exact hq

/-- **A clock that is behind**: the first server sets a topic at the time 10, the second one has read it when it
sets another one while its clock reads 9. The first server drops that topic, and the servers differ for good. -/
theorem topic_behind_clock : ∃ n : Net Bool TopicChan TopicMsg,
    TopicRun ⊤ (fun _ => sampleFeat) (fun _ _ _ _ _ => True) n ∧ n.Quiet ∧
    (n.node true).topic ≠ (n.node false).topic ∧ (n.node true).topicTime ≠ (n.node false).topicTime := by
  refine ⟨sampleRead (sampleSet (sampleRead (sampleSet sampleNet true 10 "a".toList) true) false 9
      "b".toList) false, ?_, ?_, ?_, ?_⟩
  · exact (((TopicRun.start synced_sampleNet).command true (userOf true) 10 _ trivial).sampleRead
      true).command false (userOf false) 9 _ trivial |>.sampleRead false
  · have hq : ∀ a b : Bool, (sampleRead (sampleSet (sampleRead (sampleSet sampleNet true 10
        "a".toList) true) false 9 "b".toList) false).queue a b = [] := by
      decide +kernel
    exact hq
  · decide +kernel
  · decide +kernel

end Nefarious.Channel

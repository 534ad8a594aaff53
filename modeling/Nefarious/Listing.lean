import Nefarious.Match
import Mathlib.Data.List.Nodup
import Mathlib.Tactic.Linarith

/-!
# LIST

The constraints of LIST are read from one parameter after the other, one item after the other, into bounds that
a listing compares channels with.

Names: `m_list.c`.
-/

namespace Nefarious.Listing

open List (append_nil length_cons mem_append_left mem_append_right mem_cons_of_mem mem_cons_self mem_map_of_mem)

/-! ### Parameters -/

/-- `channel.h` `struct ListingArgs`. -/
structure Args where
  maxTime : ℕ
  minTime : ℕ
  maxUsers : ℕ
  minUsers : ℕ
  topicLimits : Bool
  showSecret : Bool
  /-- `LISTARG_NEGATEWILDCARD`. -/
  negate : Bool
  showModes : Bool
  maxTopicTime : ℕ
  minTopicTime : ℕ
  wildcard : Str
deriving DecidableEq

/-- `la_init`. -/
def laInit : Args := ⟨2147483647, 0, 4294967295, 0, false, false, false, false, 2147483647, 0, []⟩

/-- Who asks, and when. `param_parse`. -/
structure Asking where
  /-- `TStime()`. -/
  now : ℕ
  /-- An operator with `PRIV_LIST_CHAN`. -/
  oper : Bool
  modesOperonly : Bool

/-- What a parameter comes to. `LPARAM_ERROR`, `LPARAM_SUCCESS`, `LPARAM_CHANNEL`. -/
inductive Parsed where
  | error
  | success (args : Args)
  | channel (args : Args)
deriving DecidableEq

/-- C language (`unsigned int`). -/
def u32 (x : ℤ) : ℕ := (x % 2 ^ 32).toNat

/-- A number as an unsigned int. C library `strtol`. -/
def strtolU32 (num : Str) : ℕ := min (Nat.ofDigitChars 10 num 0) (2 ^ 63 - 1) % 2 ^ 32

/-- Leave the number itself out, unless it may be equal. `param_parse`. -/
def adjust (less isEquals : Bool) (val : ℕ) : Bool × ℕ :=
  (less, if less then u32 (val - if isEquals then 0 else 1) else u32 (val + if isEquals then 0 else 1))

/-- The direction and the value of a bound; an age is converted to a timestamp, and its direction reversed.
`param_parse`. -/
def boundValue (now isTime : ℕ) (less isEquals : Bool) (num : Str) : Bool × ℕ :=
  if isTime ≠ 0 ∧ strtolU32 num < 80000000 then
    adjust (!less) isEquals (u32 (now - (strtolU32 num * 60 % 2 ^ 32 : ℕ)))
  else adjust less isEquals (strtolU32 num)

/-- Set a bound. `param_parse` (`switch (is_time)`). -/
def Args.put (args : Args) (isTime : ℕ) (less : Bool) (val : ℕ) : Args :=
  match isTime with
  | 0 => if less then { args with maxUsers := val } else { args with minUsers := val }
  | 1 => if less then { args with maxTime := val } else { args with minTime := val }
  | 2 => if less then { args with maxTopicTime := val } else { args with minTopicTime := val }
  | _ => args

/-- Set the bound of a comparison. `param_parse`. -/
def setBound (now isTime : ℕ) (less isEquals : Bool) (num : Str) (args : Args) : Args :=
  args.put isTime (boundValue now isTime less isEquals num).1 (boundValue now isTime less isEquals num).2

/-- An item has to end here. `param_parse` ("check syntax"). -/
def endsItem (param : Str) : Bool := param.head?.all fun c => c = ',' || c = ' '

/-- A comparison. `param_parse` (`case '<'`, `case '>'`). -/
def comparison (now isTime : ℕ) (param : Str) (args : Args) : Option (Str × Args) :=
  match param with
  | [] => none
  | dir :: rest =>
    if dir ≠ '<' ∧ dir ≠ '>' then none
    else
      let isEquals := rest.head? = some '='
      let rest := if isEquals then rest.drop 1 else rest
      if !rest.head?.any isDigit || !endsItem (rest.dropWhile isDigit) then none
      else
        some (rest.dropWhile isDigit, setBound now isTime (dir = '<') isEquals (rest.takeWhile isDigit) args)

/-- A flag. `param_parse` (`case 'S'`, `case 'M'`). -/
def listFlag (allowed : Bool) (param : Str) (args : Args) : Option (Str × Args) :=
  if allowed && endsItem param then some (param, args) else none

/-- Parse a parameter; a turn of the loop takes one item. `param_parse`. -/
def paramLoop (w : Asking) (permitChan : Bool) : ℕ → Str → ℕ → Args → Parsed
  | 0, _, _, _ => .error
  | _ + 1, [], _, _ => .error
  | n + 1, c :: param, isTime, args =>
    let next : Option (Str × Args) → ℕ → Parsed := fun r isTime =>
      match r with
      | none => .error
      | some ([], args) => .success args
      | some (_ :: param, args) => paramLoop w permitChan n param isTime args
    if c = 'T' ∨ c = 't' then
      next (comparison w.now (isTime + 2) param { args with topicLimits := true }) (isTime + 2)
    else if c = 'C' ∨ c = 'c' then next (comparison w.now (isTime + 1) param args) (isTime + 1)
    else if c = '<' ∨ c = '>' then next (comparison w.now isTime (c :: param) args) isTime
    else if c = 'S' ∨ c = 's' then next (listFlag w.oper param { args with showSecret := true }) isTime
    else if c = 'M' ∨ c = 'm' then
      next (listFlag (!w.modesOperonly || w.oper) param { args with showModes := true }) isTime
    else if '*' ∈ c :: param ∨ '?' ∈ c :: param then
      let args := if c = '!' then { args with negate := true } else args
      let param := if c = '!' then param else c :: param
      if args.wildcard ≠ [] then .error
      else if !param.head?.any (fun c => c = '*' || c = '?' || c = '#' || c = '&') then .error
      else
        let mask := param.takeWhile fun c => c ≠ ',' && c ≠ ' '
        let args := { args with wildcard := mask.take 200 }
        match param.dropWhile fun c => c ≠ ',' && c ≠ ' ' with
        | [] => .success args
        | _ :: param => paramLoop w permitChan n param isTime args
    else if permitChan && (c = '#' || c = '&') then .channel args
    else .error

def paramParse (w : Asking) (permitChan : Bool) (param : Str) (args : Args) : Parsed :=
  paramLoop w permitChan (param.length + 1) param 0 args

/-- The parameters of LIST, when none of them names a channel. `m_list`. -/
def parseParams (w : Asking) (permitChan : Bool) : List Str → Args → Option Args
  | [], args => some args
  | param :: params, args =>
    match paramParse w permitChan param args with
    | .success args => parseParams w permitChan params args
    | _ => none

/-! ### Channels -/

/-- `channel.h` `struct Channel`. -/
structure Chan where
  chname : Str
  users : ℕ
  creationtime : ℕ
  topic : Str
  topicTime : ℕ
deriving DecidableEq

/-- A channel is in the bounds. `hash.c` `list_next_channels`. -/
def Args.accepts (args : Args) (ch : Chan) : Bool :=
  args.minUsers ≤ ch.users && ch.users ≤ args.maxUsers && args.minTime ≤ ch.creationtime &&
    ch.creationtime ≤ args.maxTime &&
    (args.wildcard = [] || args.negate || matchMask args.wildcard ch.chname = 0) &&
    (!args.negate || matchMask args.wildcard ch.chname ≠ 0) &&
    (!args.topicLimits ||
      (ch.topic ≠ [] && args.minTopicTime ≤ ch.topicTime && ch.topicTime ≤ args.maxTopicTime))

/-- One call: the buckets from here on, until one after which the queue is more than half full. What was listed,
and the bucket to go on with. `hash.c` `list_next_channels`. -/
def nextChannels (shown : Chan → Bool) (full : ℕ → Bool) : List (List Chan) → ℕ → List Chan × ℕ
  | [], bucket => ([], bucket)
  | chans :: table, bucket =>
    if full bucket then (chans.filter shown, bucket)
    else
      let r := nextChannels shown full table (bucket + 1)
      (chans.filter shown ++ r.1, r.2)

/-- A listing: a call for each time that the queue is drained, as long as there are buckets. `hash.c` `list_next_channels`; `s_bsd.c`. -/
def listing (shown : Chan → Bool) (table : List (List Chan)) : List (ℕ → Bool) → ℕ → List Chan × ℕ
  | [], bucket => ([], bucket)
  | full :: fulls, bucket =>
    if table.length ≤ bucket then ([], bucket)
    else
      let r := nextChannels shown full (table.drop bucket) bucket
      let r' := listing shown table fulls r.2
      (r.1 ++ r'.1, r'.2)

/-- What LIST lists of the channels that are seen, in a table that does not change. `m_list`. -/
def list (sees : Chan → Bool) (table : List (List Chan)) (fulls : List (ℕ → Bool)) (args : Args) : List Chan :=
  if args.minUsers ≤ args.maxUsers ∧ args.minTime ≤ args.maxTime ∧ args.minTopicTime ≤ args.maxTopicTime then
    (listing (fun ch => args.accepts ch && (args.showSecret || sees ch)) table fulls 0).1
  else []

/-- What a number is about, in the order of `is_time`. `param_parse`. -/
inductive Aspect where
  | users
  | created
  | topic
deriving DecidableEq

/-- `param_parse` (`is_time`). -/
def Aspect.code : Aspect → ℕ
  | .users => 0
  | .created => 1
  | .topic => 2

/-- `param_parse`. -/
def Aspect.letter : Aspect → Str
  | .users => []
  | .created => ['C']
  | .topic => ['T']

/-- An item: a bound, or a pattern that names have to match, or must not. `show_usage`. -/
inductive Item where
  | bound (a : Aspect) (less : Bool) (num : Str)
  | pattern (negated : Bool) (mask : Str)

/-- `show_usage`. -/
def Item.text : Item → Str
  | .bound a less num => a.letter ++ (if less then '<' else '>') :: num
  | .pattern negated mask => (if negated then ['!'] else []) ++ mask

/-- There may be one item of each kind. -/
def Item.kind : Item → Option (Aspect × Bool)
  | .bound a less _ => some (a, less)
  | .pattern _ _ => none

def value (num : Str) : ℕ := Nat.ofDigitChars 10 num 0

/-- **What an item means**. -/
def Item.Holds (now : ℕ) (ch : Chan) : Item → Prop
  | .bound .users less num => if less then ch.users < value num else value num < ch.users
  | .bound .created less num =>
    if less then (now - ch.creationtime : ℤ) < 60 * value num else 60 * value num < (now - ch.creationtime : ℤ)
  | .bound .topic less num => ch.topic ≠ [] ∧
      if less then (now - ch.topicTime : ℤ) < 60 * value num else 60 * value num < (now - ch.topicTime : ℤ)
  | .pattern negated mask => if negated then matchMask mask ch.chname ≠ 0 else matchMask mask ch.chname = 0

/-- An item that can be read: its number is one, is not below zero once it is changed by one, and fits; its
pattern has a wildcard, starts as a name can, and is not too long. -/
def Item.Fits (now : ℕ) : Item → Prop
  | .bound a less num => num ≠ [] ∧ num.all isDigit = true ∧
      match a with
      | .users => if less then 1 ≤ value num ∧ value num < 2 ^ 32 else value num + 1 < 2 ^ 32
      | _ => if less then 60 * value num ≤ now else 60 * value num < now
  | .pattern _ mask => ('*' ∈ mask ∨ '?' ∈ mask) ∧
      mask.head?.any (fun c => c = '*' || c = '?' || c = '#' || c = '&') = true ∧
      mask.all (fun c => c ≠ ',' && c ≠ ' ') = true ∧ mask.length ≤ 200

def Item.apply (now : ℕ) (args : Args) : Item → Args
  | .bound a less num =>
    setBound now a.code less false num (if a = .topic then { args with topicLimits := true } else args)
  | .pattern negated mask => { args with wildcard := mask, negate := if negated then true else args.negate }

/-- A channel whose numbers are in the range that the bounds start with. `la_init`. -/
structure Ordinary (ch : Chan) : Prop where
  users : ch.users ≤ 4294967295
  creationtime : ch.creationtime ≤ 2147483647
  topicTime : ch.topicTime ≤ 2147483647

/-- Nothing of the kind was read yet. -/
def Item.Free (args : Args) : Item → Prop
  | .bound .users less _ => if less then args.maxUsers = 4294967295 else args.minUsers = 0
  | .bound .created less _ => if less then args.minTime = 0 else args.maxTime = 2147483647
  | .bound .topic less _ => (if less then args.minTopicTime = 0 else args.maxTopicTime = 2147483647) ∧
      (args.topicLimits = false → args.minTopicTime = 0 ∧ args.maxTopicTime = 2147483647)
  | .pattern _ _ => args.wildcard = [] ∧ args.negate = false

section
variable {now : ℕ} {args : Args} {ch : Chan}

variable {num : Str} {less : Bool}

lemma strtolU32_eq (h : value num < 2 ^ 32) : strtolU32 num = value num := by
  unfold strtolU32
  unfold value at h ⊢
  omega

lemma boundValue_users (h : (Item.bound .users less num).Fits now) :
    boundValue now 0 less false num = (less, if less then value num - 1 else value num + 1) := by
  obtain ⟨-, -, hfits⟩ := h
  have hzero : ¬ ((0 : ℕ) ≠ 0 ∧ strtolU32 num < 80000000) := fun hne => hne.1 rfl
  unfold boundValue adjust
  rw [if_neg hzero]
  cases less with
  | true =>
    have hrange : 1 ≤ value num ∧ value num < 2 ^ 32 := hfits
    have hle : u32 ((value num : ℤ) - 1) = value num - 1 := by
      unfold u32
      omega
    rw [strtolU32_eq hrange.2]
    exact congrArg (Prod.mk true) hle
  | false =>
    have hrange : value num + 1 < 2 ^ 32 := hfits
    have hle : u32 ((value num : ℤ) + 1) = value num + 1 := by
      unfold u32
      omega
    rw [strtolU32_eq (Nat.lt_of_succ_lt hrange)]
    exact congrArg (Prod.mk false) hle

lemma boundValue_age {isTime : ℕ} (htime : isTime ≠ 0) {less : Bool} {num : Str} (hnow : now + 1 < 2 ^ 32)
    (hfits : if less then 60 * value num ≤ now else 60 * value num < now) :
    boundValue now isTime less false num =
      (!less, if less then now - 60 * value num + 1 else now - 60 * value num - 1) := by
  have hle : 60 * value num ≤ now := by
    cases less with
    | true => exact hfits
    | false => exact le_of_lt hfits
  have hval : strtolU32 num = value num := strtolU32_eq (by omega)
  have hmod : value num * 60 % 2 ^ 32 = 60 * value num := by omega
  have hage : u32 ((now : ℤ) - (60 * value num : ℕ)) = now - 60 * value num := by
    unfold u32
    omega
  unfold boundValue adjust
  rw [hval, if_pos ⟨htime, by omega⟩, hmod, hage]
  cases less with
  | true =>
    have hadd : u32 (((now - 60 * value num : ℕ) : ℤ) + 1) = now - 60 * value num + 1 := by
      unfold u32
      omega
    exact congrArg (Prod.mk false) hadd
  | false =>
    have hlt : 60 * value num < now := hfits
    have hsub : u32 (((now - 60 * value num : ℕ) : ℤ) - 1) = now - 60 * value num - 1 := by
      unfold u32
      omega
    exact congrArg (Prod.mk true) hsub

lemma accepts_iff : args.accepts ch = true ↔ (args.minUsers ≤ ch.users ∧ ch.users ≤ args.maxUsers) ∧
    (args.minTime ≤ ch.creationtime ∧ ch.creationtime ≤ args.maxTime) ∧ ((args.wildcard = [] ∨ args.negate =
    true ∨ matchMask args.wildcard ch.chname = 0) ∧ (args.negate = false ∨
    matchMask args.wildcard ch.chname ≠ 0)) ∧ (args.topicLimits = false ∨ (ch.topic ≠ [] ∧
    args.minTopicTime ≤ ch.topicTime ∧ ch.topicTime ≤ args.maxTopicTime)) := by
  unfold Args.accepts
  simp only [Bool.and_eq_true, Bool.or_eq_true, decide_eq_true_eq, Bool.not_eq_true', and_assoc, or_assoc]

lemma accepts_users (hfits : (Item.bound .users less num).Fits now)
    (hfree : (Item.bound .users less num).Free args) (hch : Ordinary ch) :
    ((Item.bound .users less num).apply now args).accepts ch = true ↔
      args.accepts ch = true ∧ (Item.bound .users less num).Holds now ch := by
  have husers := hch.users
  have hval := boundValue_users hfits
  rw [accepts_iff, accepts_iff]
  cases less with
  | true =>
    have hmax : args.maxUsers = 4294967295 := hfree
    have hone : 1 ≤ value num := hfits.2.2.1
    have hiff : args.minUsers ≤ ch.users ∧ ch.users ≤ value num - 1 ↔
        (args.minUsers ≤ ch.users ∧ ch.users ≤ args.maxUsers) ∧ ch.users < value num := by omega
    simp only [Item.apply, setBound, Args.put, Aspect.code, hval, Item.Holds, if_true, reduceCtorEq, if_false,
      hiff]
    exact and_right_comm
  | false =>
    have hmin : args.minUsers = 0 := hfree
    have hiff : value num + 1 ≤ ch.users ∧ ch.users ≤ args.maxUsers ↔
        (args.minUsers ≤ ch.users ∧ ch.users ≤ args.maxUsers) ∧ value num < ch.users := by omega
    simp only [Item.apply, setBound, Args.put, Aspect.code, hval, Item.Holds, reduceCtorEq, if_false,
      Bool.false_eq_true, hiff]
    exact and_right_comm

lemma accepts_created (hnow : now + 1 < 2 ^ 32)
    (hfits : (Item.bound .created less num).Fits now) (hfree : (Item.bound .created less num).Free args)
    (hch : Ordinary ch) : ((Item.bound .created less num).apply now args).accepts ch = true ↔ args.accepts ch =
    true ∧ (Item.bound .created less num).Holds now ch := by
  have hcreated := hch.creationtime
  have hval := @boundValue_age now 1 one_ne_zero less num hnow hfits.2.2
  rw [accepts_iff, accepts_iff]
  cases less with
  | true =>
    have hmin : args.minTime = 0 := hfree
    have hfit : 60 * value num ≤ now := hfits.2.2
    have hiff : now - 60 * value num + 1 ≤ ch.creationtime ∧ ch.creationtime ≤ args.maxTime ↔
        (args.minTime ≤ ch.creationtime ∧ ch.creationtime ≤ args.maxTime) ∧
          (now - ch.creationtime : ℤ) < 60 * value num := by omega
    simp only [Item.apply, setBound, Args.put, Aspect.code, hval, Item.Holds, if_true, reduceCtorEq, if_false,
      Bool.not_true, Bool.false_eq_true, hiff, and_assoc, and_comm, and_left_comm]
  | false =>
    have hmax : args.maxTime = 2147483647 := hfree
    have hfit : 60 * value num < now := hfits.2.2
    have hiff : args.minTime ≤ ch.creationtime ∧ ch.creationtime ≤ now - 60 * value num - 1 ↔
        (args.minTime ≤ ch.creationtime ∧ ch.creationtime ≤ args.maxTime) ∧
          60 * value num < (now - ch.creationtime : ℤ) := by omega
    simp only [Item.apply, setBound, Args.put, Aspect.code, hval, Item.Holds, reduceCtorEq, if_false, if_true,
      Bool.not_false, Bool.false_eq_true, hiff, and_assoc, and_comm, and_left_comm]

lemma accepts_topic (hnow : now + 1 < 2 ^ 32)
    (hfits : (Item.bound .topic less num).Fits now) (hfree : (Item.bound .topic less num).Free args)
    (hch : Ordinary ch) : ((Item.bound .topic less num).apply now args).accepts ch = true ↔ args.accepts ch =
    true ∧ (Item.bound .topic less num).Holds now ch := by
  have htopic := hch.topicTime
  have hval := @boundValue_age now 2 two_ne_zero less num hnow hfits.2.2
  rw [accepts_iff, accepts_iff]
  cases less with
  | true =>
    obtain ⟨hmin, hlim⟩ : args.minTopicTime = 0 ∧
        (args.topicLimits = false → args.minTopicTime = 0 ∧ args.maxTopicTime = 2147483647) := hfree
    have hfit : 60 * value num ≤ now := hfits.2.2
    have hiff : ch.topic ≠ [] ∧ now - 60 * value num + 1 ≤ ch.topicTime ∧ ch.topicTime ≤ args.maxTopicTime ↔
        (args.topicLimits = false ∨
          (ch.topic ≠ [] ∧ args.minTopicTime ≤ ch.topicTime ∧ ch.topicTime ≤ args.maxTopicTime)) ∧
          ch.topic ≠ [] ∧ (now - ch.topicTime : ℤ) < 60 * value num := by grind
    simp only [Item.apply, setBound, Args.put, Aspect.code, hval, Item.Holds, if_true, Bool.not_true, if_false,
      Bool.false_eq_true, Bool.true_eq_false, false_or, hiff, and_assoc]
  | false =>
    obtain ⟨hmax, hlim⟩ : args.maxTopicTime = 2147483647 ∧
        (args.topicLimits = false → args.minTopicTime = 0 ∧ args.maxTopicTime = 2147483647) := hfree
    have hfit : 60 * value num < now := hfits.2.2
    have hiff : ch.topic ≠ [] ∧ args.minTopicTime ≤ ch.topicTime ∧ ch.topicTime ≤ now - 60 * value num - 1 ↔
        (args.topicLimits = false ∨
          (ch.topic ≠ [] ∧ args.minTopicTime ≤ ch.topicTime ∧ ch.topicTime ≤ args.maxTopicTime)) ∧
          ch.topic ≠ [] ∧ 60 * value num < (now - ch.topicTime : ℤ) := by grind
    simp only [Item.apply, setBound, Args.put, Aspect.code, hval, Item.Holds, Bool.not_false, if_true, if_false,
      Bool.false_eq_true, Bool.true_eq_false, false_or, hiff, and_assoc]

lemma accepts_pattern {negated : Bool} {mask : Str} (hfits : (Item.pattern negated mask).Fits now)
    (hfree : (Item.pattern negated mask).Free args) : ((Item.pattern negated mask).apply now args).accepts ch =
    true ↔ args.accepts ch = true ∧ (Item.pattern negated mask).Holds now ch := by
  obtain ⟨hwild, hnegate⟩ := hfree
  have hmask : mask ≠ [] := by
    rintro rfl
    exact absurd hfits.2.1 Bool.false_ne_true
  rw [accepts_iff, accepts_iff]
  cases negated with
  | true =>
    simp only [Item.apply, Item.Holds, hwild, hnegate, if_true, true_or, or_true, Bool.true_eq_false, false_or,
      true_and, and_true, ne_eq]
    tauto
  | false =>
    simp only [Item.apply, Item.Holds, hwild, hnegate, Bool.false_eq_true, if_false, false_or, true_or, and_true,
      hmask, true_and]
    tauto

lemma accepts_apply {i : Item} (hnow : now + 1 < 2 ^ 32) (hfits : i.Fits now) (hfree : i.Free args)
    (hch : Ordinary ch) : (i.apply now args).accepts ch = true ↔ args.accepts ch = true ∧ i.Holds now ch := by
  cases i with
  | pattern negated mask => exact accepts_pattern hfits hfree
  | bound a less num =>
    cases a with
    | users => exact accepts_users hfits hfree hch
    | created => exact accepts_created hnow hfits hfree hch
    | topic => exact accepts_topic hnow hfits hfree hch

lemma boundValue_item {a : Aspect} (hnow : now + 1 < 2 ^ 32)
    (hfits : (Item.bound a less num).Fits now) :
    ∃ val, boundValue now a.code less false num = (if a = .users then less else !less, val) := by
  cases a with
  | users => exact ⟨_, boundValue_users hfits⟩
  | created => exact ⟨_, boundValue_age one_ne_zero hnow hfits.2.2⟩
  | topic => exact ⟨_, boundValue_age two_ne_zero hnow hfits.2.2⟩

lemma put_frame (args : Args) (isTime : ℕ) (less : Bool) (val : ℕ) : (args.put isTime less val).wildcard =
    args.wildcard ∧ (args.put isTime less val).negate = args.negate ∧ (args.put isTime less val).showSecret =
    args.showSecret ∧ (args.put isTime less val).topicLimits = args.topicLimits := by
  unfold Args.put
  split <;> cases less <;> exact ⟨rfl, rfl, rfl, rfl⟩

lemma put_topic (args : Args) {isTime : ℕ} (less : Bool) (val : ℕ) (htime : isTime ≠ 2) :
    (args.put isTime less val).minTopicTime = args.minTopicTime ∧
      (args.put isTime less val).maxTopicTime = args.maxTopicTime := by
  unfold Args.put
  split
  · cases less <;> exact ⟨rfl, rfl⟩
  · cases less <;> exact ⟨rfl, rfl⟩
  · exact absurd rfl htime
  · exact ⟨rfl, rfl⟩

lemma free_apply {i j : Item} (hnow : now + 1 < 2 ^ 32) (hfits : i.Fits now) (hkind : i.kind ≠ j.kind)
    (hfree : j.Free args) : j.Free (i.apply now args) := by
  cases i with
  | pattern negated mask =>
    cases j with
    | pattern negated' mask' => exact absurd rfl hkind
    | bound b less' num' => cases b <;> exact hfree
  | bound a less num =>
    cases j with
    | pattern negated' mask' =>
      obtain ⟨hwild, hneg, -, -⟩ := put_frame
        (if a = .topic then { args with topicLimits := true } else args) a.code
        (boundValue now a.code less false num).1 (boundValue now a.code less false num).2
      refine ⟨hwild.trans ?_, hneg.trans ?_⟩
      · rw [apply_ite Args.wildcard, ite_self]
        exact hfree.1
      · rw [apply_ite Args.negate, ite_self]
        exact hfree.2
    | bound b less' num' =>
      obtain ⟨val, hval⟩ := boundValue_item hnow hfits
      unfold Item.apply setBound
      simp only [hval]
      cases a <;> cases b <;> cases less <;> cases less' <;>
        first | exact absurd rfl hkind | exact hfree | exact ⟨hfree.1, fun h => nomatch h⟩

lemma apply_frame (i : Item) (now : ℕ) (args : Args) : (i.apply now args).showSecret = args.showSecret ∧
    ((args.topicLimits = false → args.minTopicTime ≤ args.maxTopicTime) → (i.apply now args).topicLimits =
    false → (i.apply now args).minTopicTime ≤ (i.apply now args).maxTopicTime) := by
  cases i with
  | pattern negated mask => exact ⟨rfl, id⟩
  | bound a less num =>
    obtain ⟨-, -, hsecret, hlim⟩ := put_frame
      (if a = .topic then { args with topicLimits := true } else args) a.code
      (boundValue now a.code less false num).1 (boundValue now a.code less false num).2
    refine ⟨hsecret.trans (by rw [apply_ite Args.showSecret, ite_self]), fun hle hfalse => ?_⟩
    have hfalse := hlim.symm.trans hfalse
    by_cases htopic : a = .topic
    · rw [if_pos htopic] at hfalse
      cases hfalse
    · rw [if_neg htopic] at hfalse
      have htime : a.code ≠ 2 := by
        cases a with
        | topic => exact absurd rfl htopic
        | users => decide
        | created => decide
      obtain ⟨hmin, hmax⟩ := put_topic args (boundValue now a.code less false num).1
        (boundValue now a.code less false num).2 htime
      unfold Item.apply setBound
      simp only [if_neg htopic]
      rw [hmin, hmax]
      exact hle hfalse

def applyAll (now : ℕ) (items : List Item) (args : Args) : Args := items.foldl (Item.apply now) args

lemma accepts_applyAll {items : List Item} (hnow : now + 1 < 2 ^ 32) (hfits : ∀ i ∈ items, i.Fits now)
    (hkinds : (items.map Item.kind).Nodup) (hfree : ∀ i ∈ items, i.Free args) (hch : Ordinary ch) :
    (applyAll now items args).accepts ch = true ↔ args.accepts ch = true ∧ ∀ i ∈ items, i.Holds now ch := by
  induction items generalizing args with
  | nil => simp [applyAll]
  | cons i items ih =>
    obtain ⟨hne, hkinds⟩ := List.nodup_cons.mp hkinds
    have hfiti := hfits i (mem_cons_self ..)
    have hrest : ∀ j ∈ items, j.Free (i.apply now args) := by
      intro j hj
      have hkind : i.kind ≠ j.kind := fun h => hne (h ▸ mem_map_of_mem hj)
      exact free_apply hnow hfiti hkind (hfree j (mem_cons_of_mem i hj))
    have hall := ih (fun j hj => hfits j (mem_cons_of_mem i hj)) hkinds hrest
    have hone := accepts_apply hnow hfiti (hfree i (mem_cons_self ..)) hch
    rw [show applyAll now (i :: items) args = applyAll now items (i.apply now args) from rfl, hall, hone,
      List.forall_mem_cons, and_assoc]

lemma free_applyAll {items : List Item} {j : Item} (hnow : now + 1 < 2 ^ 32) (hfits : ∀ i ∈ items, i.Fits now)
    (hkinds : ∀ i ∈ items, i.kind ≠ j.kind) (hfree : j.Free args) : j.Free (applyAll now items args) := by
  induction items generalizing args with
  | nil => exact hfree
  | cons i items ih =>
    apply ih (fun k hk => hfits k (mem_cons_of_mem i hk)) (fun k hk => hkinds k (mem_cons_of_mem i hk))
    exact free_apply hnow (hfits i (mem_cons_self ..)) (hkinds i (mem_cons_self ..)) hfree

lemma applyAll_frame (items : List Item) (now : ℕ) (args : Args)
    (htopic : args.topicLimits = false → args.minTopicTime ≤ args.maxTopicTime) :
    (applyAll now items args).showSecret = args.showSecret ∧ ((applyAll now items args).topicLimits = false →
        (applyAll now items args).minTopicTime ≤ (applyAll now items args).maxTopicTime) := by
  induction items generalizing args with
  | nil => exact ⟨rfl, htopic⟩
  | cons i items ih =>
    obtain ⟨hsecret, hstep⟩ := apply_frame i now args
    obtain ⟨hsecret', hrest⟩ := ih (i.apply now args) (hstep htopic)
    exact ⟨hsecret'.trans hsecret, hrest⟩

end

/-! ### Reading items -/

/-- A parameter of items. `show_usage`. -/
structure Param where
  first : Item
  more : List (Char × Item)
  seps : ∀ p ∈ more, p.1 = ',' ∨ p.1 = ' '

def textMore (more : List (Char × Item)) : Str := more.flatMap fun p => p.1 :: p.2.text

def Param.text (p : Param) : Str := p.first.text ++ textMore p.more

def Param.items (p : Param) : List Item := p.first :: p.more.map Prod.snd

/-- What an item leaves in `is_time`. `param_parse`. -/
def Item.code : Item → ℕ
  | .bound a _ _ => a.code
  | .pattern _ _ => 0

/-- Nothing is wrong with the aspects of the items: none with a number follows one with an age. -/
def Apart : List Item → Prop := List.Pairwise fun i j => i.code = 0 ∨ j.kind = none

lemma endsItem_textMore {more : List (Char × Item)} (hseps : ∀ p ∈ more, p.1 = ',' ∨ p.1 = ' ') :
    endsItem (textMore more) = true := by
  cases more with
  | nil => rfl
  | cons p more =>
    rcases hseps p (mem_cons_self ..) with h | h <;> simp [textMore, endsItem, h]

lemma sep_of_endsItem {rest : Str} (hends : endsItem rest = true) : ∀ c ∈ rest.head?, c = ',' ∨ c = ' ' := by
  intro c hc
  obtain ⟨cs, rfl⟩ : ∃ cs, rest = c :: cs := by
    cases rest with
    | nil => cases hc
    | cons d cs => exact ⟨cs, by rw [Option.some.inj hc]⟩
  simpa [endsItem] using hends

lemma takeWhile_item {p : Char → Bool} {item rest : Str} (hitem : item.all p = true)
    (hends : endsItem rest = true) (hcomma : p ',' = false) (hblank : p ' ' = false) :
    (item ++ rest).takeWhile p = item ∧ (item ++ rest).dropWhile p = rest := by
  have hall : ∀ c ∈ item, p c = true := List.all_eq_true.mp hitem
  rw [List.takeWhile_append_of_pos hall, List.dropWhile_append_of_pos hall]
  cases rest with
  | nil => exact ⟨append_nil item, rfl⟩
  | cons c cs =>
    have hc : ¬ p c = true := by
      rcases sep_of_endsItem hends c rfl with rfl | rfl
      · exact Bool.eq_false_iff.mp hcomma
      · exact Bool.eq_false_iff.mp hblank
    rw [List.takeWhile_cons_of_neg hc, List.dropWhile_cons_of_neg hc]
    exact ⟨append_nil item, rfl⟩

lemma comparison_bound {now isTime : ℕ} {less : Bool} {num rest : Str} {args : Args} (hne : num ≠ [])
    (hnum : num.all isDigit = true) (hends : endsItem rest = true) :
    comparison now isTime ((if less then '<' else '>') :: (num ++ rest)) args =
      some (rest, setBound now isTime less false num args) := by
  obtain ⟨htake, hdrop⟩ := takeWhile_item hnum hends (by decide) (by decide)
  obtain ⟨d, ds, rfl⟩ := List.exists_cons_of_ne_nil hne
  have hd : isDigit d = true := (Bool.and_eq_true_iff.mp hnum).1
  have heq : d ≠ '=' := by
    rintro rfl
    exact absurd hd (by decide)
  have hdir : ¬ ((if less then '<' else '>') ≠ '<' ∧ (if less then '<' else '>') ≠ '>') := by
    cases less <;> decide
  rw [comparison, if_neg hdir]
  simp only [List.cons_append, List.head?_cons, Option.some.injEq, heq, if_false, decide_false,
    Option.any_some, hd] at htake hdrop ⊢
  simp [htake, hdrop, hends]

section
variable {w : Asking} {permitChan : Bool} {args : Args} {rest : Str} {n : ℕ}

/-- What is done behind an item. `param_parse` ("hit end of string?"). -/
def behind (w : Asking) (permitChan : Bool) (n isTime : ℕ) (args : Args) : Str → Parsed
  | [] => .success args
  | _ :: param => paramLoop w permitChan n param isTime args

lemma paramLoop_bound {a : Aspect} {less : Bool} {num : Str} (hfits : (Item.bound a less num).Fits w.now)
    (hends : endsItem rest = true) :
    paramLoop w permitChan (n + 1) ((Item.bound a less num).text ++ rest) 0 args =
      behind w permitChan n a.code ((Item.bound a less num).apply w.now args) rest := by
  have hcmp := fun isTime args => @comparison_bound w.now isTime less num rest args hfits.1 hfits.2.1 hends
  cases a with
  | users =>
    have hT : ¬ ((if less then '<' else '>') = 'T' ∨ (if less then '<' else '>') = 't') := by
      cases less <;> decide
    have hC : ¬ ((if less then '<' else '>') = 'C' ∨ (if less then '<' else '>') = 'c') := by
      cases less <;> decide
    have hdir : (if less then '<' else '>') = '<' ∨ (if less then '<' else '>') = '>' := by cases less <;> decide
    rw [show (Item.bound .users less num).text ++ rest = (if less then '<' else '>') :: (num ++ rest) from rfl,
      paramLoop]
    generalize (if less then '<' else '>') = dir at hT hC hdir hcmp
    rw [if_neg hT, if_neg hC, if_pos hdir, hcmp]
    cases rest <;> rfl
  | created =>
    rw [show (Item.bound .created less num).text ++ rest =
        'C' :: (if less then '<' else '>') :: (num ++ rest) from rfl,
      paramLoop]
    have hT : ¬ ('C' = 'T' ∨ 'C' = 't') := by decide
    rw [if_neg hT, if_pos (.inl rfl), hcmp]
    cases rest <;> rfl
  | topic =>
    rw [show (Item.bound .topic less num).text ++ rest =
        'T' :: (if less then '<' else '>') :: (num ++ rest) from rfl,
      paramLoop]
    rw [if_pos (.inl rfl), hcmp]
    cases rest <;> rfl

lemma paramLoop_pattern {negated : Bool} {mask : Str} {isTime : ℕ}
    (hfits : (Item.pattern negated mask).Fits w.now) (hwild : args.wildcard = [])
    (hends : endsItem rest = true) :
    paramLoop w permitChan (n + 1) ((Item.pattern negated mask).text ++ rest) isTime args =
    behind w permitChan n isTime ((Item.pattern negated mask).apply w.now args) rest := by
  obtain ⟨hjoker, hhead, hall, hshort⟩ := hfits
  obtain ⟨htake, hdrop⟩ := takeWhile_item hall hends (by decide) (by decide)
  obtain ⟨d, ds, rfl⟩ : ∃ d ds, mask = d :: ds := by
    cases mask with
    | nil => cases hhead
    | cons d ds => exact ⟨d, ds, rfl⟩
  have hd : d = '*' ∨ d = '?' ∨ d = '#' ∨ d = '&' := by simpa [or_assoc] using hhead
  have hcases : ∀ c, c = '!' ∨ c = d → ¬ (c = 'T' ∨ c = 't') ∧ ¬ (c = 'C' ∨ c = 'c') ∧ ¬ (c = '<' ∨ c = '>') ∧
      ¬ (c = 'S' ∨ c = 's') ∧ ¬ (c = 'M' ∨ c = 'm') := by
    rintro c (rfl | rfl)
    · decide
    · rcases hd with rfl | rfl | rfl | rfl <;> decide
  have hbang : d ≠ '!' := by rcases hd with rfl | rfl | rfl | rfl <;> decide
  have hmem : ∀ pre : Str, '*' ∈ pre ++ (d :: ds ++ rest) ∨ '?' ∈ pre ++ (d :: ds ++ rest) := fun pre =>
    hjoker.imp (fun h => mem_append_right _ (mem_append_left _ h))
      (fun h => mem_append_right _ (mem_append_left _ h))
  have hany : ¬ (!(d :: ds ++ rest).head?.any fun c => c = '*' || c = '?' || c = '#' || c = '&') = true := by
    rw [show (d :: ds ++ rest).head? = (d :: ds).head? from rfl, hhead]
    exact Bool.false_ne_true
  have htaken : (d :: ds).take 200 = d :: ds := List.take_of_length_le hshort
  cases negated with
  | true =>
    obtain ⟨hT, hC, hdir, hS, hM⟩ := hcases '!' (.inl rfl)
    have hmems : '*' ∈ '!' :: (d :: ds ++ rest) ∨ '?' ∈ '!' :: (d :: ds ++ rest) := hmem ['!']
    rw [show (Item.pattern true (d :: ds)).text ++ rest = '!' :: (d :: ds ++ rest) from rfl, paramLoop]
    rw [if_neg hT, if_neg hC, if_neg hdir, if_neg hS, if_neg hM, if_pos hmems]
    simp only [if_true, hwild, ne_eq, not_true, if_neg hany, hdrop, htake, htaken, if_false]
    cases rest <;> rfl
  | false =>
    obtain ⟨hT, hC, hdir, hS, hM⟩ := hcases d (.inr rfl)
    have hmems : '*' ∈ d :: (ds ++ rest) ∨ '?' ∈ d :: (ds ++ rest) := hmem []
    rw [show (Item.pattern false (d :: ds)).text ++ rest = d :: (ds ++ rest) from rfl, paramLoop,
      if_neg hT, if_neg hC, if_neg hdir, if_neg hS, if_neg hM, if_pos hmems]
    simp only [if_neg hbang, hwild, ne_eq, not_true, ← List.cons_append, if_neg hany, hdrop, htake, htaken,
      if_false]
    cases rest <;> rfl

lemma paramLoop_item {i : Item} {isTime : ℕ} (hfits : i.Fits w.now) (hfree : i.Free args)
    (hends : endsItem rest = true) (htime : isTime = 0 ∨ i.kind = none) :
    paramLoop w permitChan (n + 1) (i.text ++ rest) isTime args =
      behind w permitChan n (isTime + i.code) (i.apply w.now args) rest := by
  cases i with
  | bound a less num =>
    obtain rfl : isTime = 0 := htime.resolve_right (Option.some_ne_none _)
    rw [paramLoop_bound hfits hends, Nat.zero_add]
    rfl
  | pattern negated mask => exact paramLoop_pattern hfits hfree.1 hends

lemma behind_items {more : List (Char × Item)} {isTime : ℕ} (hnow : w.now + 1 < 2 ^ 32)
    (hseps : ∀ p ∈ more, p.1 = ',' ∨ p.1 = ' ') (hfits : ∀ p ∈ more, p.2.Fits w.now)
    (hkinds : (more.map fun p => p.2.kind).Nodup) (hfree : ∀ p ∈ more, p.2.Free args)
    (hapart : Apart (more.map Prod.snd)) (htime : isTime = 0 ∨ ∀ p ∈ more, p.2.kind = none)
    (hfuel : more.length ≤ n) :
    behind w permitChan n isTime args (textMore more) = .success (applyAll w.now (more.map Prod.snd) args) := by
  induction more generalizing n isTime args with
  | nil => rfl
  | cons p more ih =>
    obtain ⟨n, rfl⟩ : ∃ m, n = m + 1 := Nat.exists_eq_succ_of_ne_zero (by rintro rfl; cases hfuel)
    obtain ⟨hne, hkinds⟩ := List.nodup_cons.mp hkinds
    obtain ⟨hfirst, hapart⟩ := List.pairwise_cons.mp hapart
    have hseps' := fun q hq => hseps q (mem_cons_of_mem p hq)
    have hfit := hfits p (mem_cons_self ..)
    have hitem := @paramLoop_item w permitChan args (textMore more) n p.2 isTime hfit
      (hfree p (mem_cons_self ..)) (endsItem_textMore hseps')
      (htime.imp_right fun h => h p (mem_cons_self ..))
    have hfree' : ∀ q ∈ more, q.2.Free (p.2.apply w.now args) := by
      intro q hq
      have hkind : p.2.kind ≠ q.2.kind := fun h => hne (List.mem_map.mpr ⟨q, hq, h.symm⟩)
      exact free_apply hnow hfit hkind (hfree q (mem_cons_of_mem p hq))
    have htime' : isTime + p.2.code = 0 ∨ ∀ q ∈ more, q.2.kind = none := by
      rcases htime with rfl | hnone
      · by_cases hcode : p.2.code = 0
        · exact .inl (by rw [hcode])
        · exact .inr fun q hq => (hfirst q.2 (mem_map_of_mem hq)).resolve_left hcode
      · exact .inr fun q hq => hnone q (mem_cons_of_mem p hq)
    calc behind w permitChan (n + 1) isTime args (textMore (p :: more))
        = paramLoop w permitChan (n + 1) (p.2.text ++ textMore more) isTime args := rfl
      _ = behind w permitChan n (isTime + p.2.code) (p.2.apply w.now args) (textMore more) := hitem
      _ = .success (applyAll w.now (more.map Prod.snd) (p.2.apply w.now args)) :=
        ih hseps' (fun q hq => hfits q (mem_cons_of_mem p hq)) hkinds hfree' hapart htime'
          (Nat.le_of_succ_le_succ hfuel)

lemma length_textMore (more : List (Char × Item)) : more.length ≤ (textMore more).length := by
  induction more with
  | nil => exact le_rfl
  | cons p more ih =>
    rw [show textMore (p :: more) = p.1 :: (p.2.text ++ textMore more) from rfl]
    simp only [length_cons, List.length_append]
    omega

lemma paramParse_items {p : Param} (hnow : w.now + 1 < 2 ^ 32) (hfits : ∀ i ∈ p.items, i.Fits w.now)
    (hkinds : (p.items.map Item.kind).Nodup) (hfree : ∀ i ∈ p.items, i.Free args) (hapart : Apart p.items) :
    paramParse w permitChan p.text args = .success (applyAll w.now p.items args) := by
  have hmem : ∀ q ∈ (',', p.first) :: p.more, q.2 ∈ p.items := by
    rintro q (_ | ⟨_, hq⟩)
    · exact mem_cons_self ..
    · exact mem_cons_of_mem _ (mem_map_of_mem hq)
  have hseps : ∀ q ∈ (',', p.first) :: p.more, q.1 = ',' ∨ q.1 = ' ' := by
    rintro q (_ | ⟨_, hq⟩)
    · exact .inl rfl
    · exact p.seps q hq
  have hkinds' : (((',', p.first) :: p.more).map fun q => q.2.kind).Nodup := by
    simpa [Param.items, List.map_map, Function.comp_def] using hkinds
  have hlength := length_textMore p.more
  have hfuel : ((',', p.first) :: p.more).length ≤ p.text.length + 1 := by
    rw [length_cons, Param.text, List.length_append]
    omega
  exact @behind_items w permitChan args (p.text.length + 1) ((',', p.first) :: p.more) 0 hnow hseps
    (fun q hq => hfits q.2 (hmem q hq)) hkinds' (fun q hq => hfree q.2 (hmem q hq)) hapart (.inl rfl) hfuel

lemma parseParams_items {params : List Param} (hnow : w.now + 1 < 2 ^ 32)
    (hfits : ∀ i ∈ params.flatMap Param.items, i.Fits w.now)
    (hkinds : ((params.flatMap Param.items).map Item.kind).Nodup)
    (hfree : ∀ i ∈ params.flatMap Param.items, i.Free args) (hapart : ∀ p ∈ params, Apart p.items) :
    parseParams w permitChan (params.map Param.text) args =
      some (applyAll w.now (params.flatMap Param.items) args) := by
  induction params generalizing args with
  | nil => rfl
  | cons p params ih =>
    rw [List.flatMap_cons] at hfits hkinds hfree
    rw [List.map_append] at hkinds
    obtain ⟨hkindsp, hkinds', hdisj⟩ := List.nodup_append.mp hkinds
    have hparse := @paramParse_items w permitChan args p hnow
      (fun i hi => hfits i (mem_append_left _ hi)) hkindsp (fun i hi => hfree i (mem_append_left _ hi))
      (hapart p (mem_cons_self ..))
    have hfree' : ∀ j ∈ params.flatMap Param.items, j.Free (applyAll w.now p.items args) := by
      intro j hj
      apply free_applyAll hnow (fun i hi => hfits i (mem_append_left _ hi)) _
        (hfree j (mem_append_right _ hj))
      exact fun i hi => hdisj _ (mem_map_of_mem hi) _ (mem_map_of_mem hj)
    have hrest := ih (fun i hi => hfits i (mem_append_right _ hi)) hkinds' hfree'
      (fun q hq => hapart q (mem_cons_of_mem p hq))
    rw [List.map_cons, parseParams, hparse]
    dsimp only
    rw [hrest, List.flatMap_cons, applyAll, applyAll, applyAll, List.foldl_append]

end

/-! ### The listing -/

section
variable {shown : Chan → Bool}

lemma nextChannels_ge (full : ℕ → Bool) (table : List (List Chan)) (bucket : ℕ) :
    bucket ≤ (nextChannels shown full table bucket).2 := by
  induction table generalizing bucket with
  | nil => exact le_rfl
  | cons chans table ih =>
    unfold nextChannels
    split
    · exact le_rfl
    · exact Nat.le_of_succ_le (ih (bucket + 1))

lemma nextChannels_rest {full : ℕ → Bool} (table : List (List Chan)) (bucket : ℕ)
    (hquiet : ∀ k chans, full (bucket + k) = true → table[k]? = some chans → chans.filter shown = []) :
    (nextChannels shown full table bucket).1 ++
        (table.drop ((nextChannels shown full table bucket).2 - bucket)).flatten.filter shown =
      table.flatten.filter shown := by
  induction table generalizing bucket with
  | nil => simp [nextChannels]
  | cons chans table ih =>
    unfold nextChannels
    split
    · next hfull =>
      have hnone : chans.filter shown = [] := hquiet 0 chans hfull rfl
      simp [hnone]
    · have hrest := ih (bucket + 1) (fun k chans' hfull hget =>
        hquiet (k + 1) chans' (by rw [← Nat.add_assoc, Nat.add_right_comm]; exact hfull) hget)
      have hge := @nextChannels_ge shown full table (bucket + 1)
      have hsub : (nextChannels shown full table (bucket + 1)).2 - bucket =
          (nextChannels shown full table (bucket + 1)).2 - (bucket + 1) + 1 := by omega
      rw [hsub, List.drop_succ_cons, List.append_assoc, hrest, List.flatten_cons, List.filter_append]

lemma nextChannels_end {full : ℕ → Bool} (hnever : ∀ b, full b = false) (table : List (List Chan))
    (bucket : ℕ) : (nextChannels shown full table bucket).2 = bucket + table.length := by
  induction table generalizing bucket with
  | nil => rfl
  | cons chans table ih =>
    unfold nextChannels
    rw [if_neg (by rw [hnever]; exact Bool.false_ne_true), ih, length_cons]
    omega

lemma listing_ge (table : List (List Chan)) (fulls : List (ℕ → Bool)) (bucket : ℕ) :
    bucket ≤ (listing shown table fulls bucket).2 := by
  induction fulls generalizing bucket with
  | nil => exact le_rfl
  | cons full fulls ih =>
    unfold listing
    split
    · exact le_rfl
    · exact (nextChannels_ge full _ bucket).trans (ih _)

lemma listing_end {table : List (List Chan)} {fulls : List (ℕ → Bool)}
    (hlast : ∃ full ∈ fulls, ∀ b, full b = false) (bucket : ℕ) :
    table.length ≤ (listing shown table fulls bucket).2 := by
  induction fulls generalizing bucket with
  | nil => exact absurd hlast (by rintro ⟨_, ⟨⟩, _⟩)
  | cons full fulls ih =>
    unfold listing
    split
    · next hend => exact hend
    · next hbucket =>
      obtain ⟨full', hmem, hnever⟩ := hlast
      rcases List.mem_cons.mp hmem with rfl | hmem
      · have hend := @nextChannels_end shown _ hnever (table.drop bucket) bucket
        rw [List.length_drop, Nat.add_sub_cancel' (Nat.le_of_not_le hbucket)] at hend
        dsimp only
        rw [hend]
        exact listing_ge table fulls table.length
      · exact ih ⟨full', hmem, hnever⟩ _

lemma listing_rest {table : List (List Chan)} {fulls : List (ℕ → Bool)}
    (hquiet : ∀ full ∈ fulls, ∀ k chans, full k = true → table[k]? = some chans → chans.filter shown = [])
    (bucket : ℕ) :
    (listing shown table fulls bucket).1 ++
        (table.drop (listing shown table fulls bucket).2).flatten.filter shown =
      (table.drop bucket).flatten.filter shown := by
  induction fulls generalizing bucket with
  | nil => rfl
  | cons full fulls ih =>
    unfold listing
    split
    · rfl
    · have hquiet' := fun k chans hfull hget => hquiet full (mem_cons_self ..) (bucket + k) chans hfull
        (List.getElem?_drop ▸ hget)
      have hone := nextChannels_rest (table.drop bucket) bucket hquiet'
      have hrest := ih (fun f hf => hquiet f (mem_cons_of_mem full hf))
        (nextChannels shown full (table.drop bucket) bucket).2
      rw [List.drop_drop, Nat.add_sub_cancel' (nextChannels_ge full _ bucket)] at hone
      rw [List.append_assoc, hrest, hone]

end

/-- A channel that the items ask for. `show_usage`. -/
def AskedFor (now : ℕ) (params : List Param) (ch : Chan) : Prop :=
  ∀ i ∈ params.flatMap Param.items, i.Holds now ch

instance (now : ℕ) (ch : Chan) : (i : Item) → Decidable (i.Holds now ch)
  | .bound .users _ _ => inferInstanceAs (Decidable (ite _ _ _))
  | .bound .created _ _ => inferInstanceAs (Decidable (ite _ _ _))
  | .bound .topic _ _ => inferInstanceAs (Decidable (_ ∧ ite _ _ _))
  | .pattern _ _ => inferInstanceAs (Decidable (ite _ _ _))

instance (now : ℕ) (params : List Param) : DecidablePred (AskedFor now params) := fun ch =>
  inferInstanceAs (Decidable (∀ i ∈ params.flatMap Param.items, i.Holds now ch))

lemma sane_of_accepts {args : Args} {ch : Chan}
    (htopic : args.topicLimits = false → args.minTopicTime ≤ args.maxTopicTime)
    (haccepts : args.accepts ch = true) :
    args.minUsers ≤ args.maxUsers ∧ args.minTime ≤ args.maxTime ∧ args.minTopicTime ≤ args.maxTopicTime := by
  obtain ⟨husers, hcreated, -, hlim⟩ := accepts_iff.mp haccepts
  refine ⟨husers.1.trans husers.2, hcreated.1.trans hcreated.2, ?_⟩
  rcases hlim with hlim | ⟨-, hmin, hmax⟩
  · exact htopic hlim
  · exact hmin.trans hmax

def sampleAsking : Asking := ⟨100000, false, false⟩

def sampleChan (chname : String) (users creationtime : ℕ) : Chan := ⟨chname.toList, users, creationtime, [], 0⟩

def sampleTable : List (List Chan) :=
  [[sampleChan "#a" 1 1000, sampleChan "#b" 9 1000], [], [sampleChan "#c" 1 99900]]

def sampleParams : List Param :=
  [⟨.bound .users true ['3'], [(',', .pattern false ['#', '*'])], by decide⟩,
    ⟨.bound .created false ['1', '0'], [], by decide⟩]

end Nefarious.Listing

import Nefarious.Address.Text
import Nefarious.Channel.BanCache
import Nefarious.Crule
import Nefarious.IPcheck
import Nefarious.Match

/-!
# The masks of bans

What somebody gives for a ban is brought into the form `nick!user@host`, or into a prefix and a mask when it is
an extended ban.

Names: `channel.c`.
-/

namespace Nefarious.BanMask

open BanCache

/-- Longest nick. `ircd_defs.h`. -/
def nickLen : ℕ := 30

/-- The size of the text of a ban. `channel.h` `struct Ban` (`banstr`). -/
def banstrSize : ℕ := nickLen + userLen + hostLen + 3

/-! ### The text -/

/-- In front of the last one. C library `strrchr`. -/
def beforeLast (c : Char) (s : Str) : Str := ((s.reverse.dropWhile (· ≠ c)).drop 1).reverse

/-- Behind the last one. C library `strrchr`. -/
def afterLast (c : Char) (s : Str) : Str := (s.reverse.takeWhile (· ≠ c)).reverse

/-- A text that is too long is cut off at the start with a star. `pretty_mask`. -/
def cutStart (n : ℕ) (s : Str) : Str := if n < s.length then '*' :: s.drop (s.length - n + 1) else s

/-- Nick, user and host of a mask; `none` is the star. `pretty_mask`. -/
def maskParts (mask : Str) : Option Str × Option Str × Option Str :=
  match mask.dropWhile (fun c => c ≠ '!' ∧ c ≠ '@') with
  | [] => if '.' ∈ mask ∨ ':' ∈ mask then (none, none, some mask) else (some mask, none, none)
  | c :: rest =>
    if c = '!' then
      let nick := mask.takeWhile (fun c => c ≠ '!' ∧ c ≠ '@')
      if '@' ∈ rest then (some nick, some (beforeLast '@' rest), some (afterLast '@' rest))
      else (some nick, some rest, none)
    else (none, some (beforeLast '@' mask), some (afterLast '@' mask))

def prettyMask (mask : Str) : Str :=
  let parts := maskParts mask
  (parts.1.map (List.take nickLen)).getD ['*'] ++ '!' ::
    ((parts.2.1.map (cutStart userLen)).getD ['*'] ++ '@' :: (parts.2.2.map (cutStart hostLen)).getD ['*'])

/-- The flags of an extended ban. `EBAN_QUIET` and the others. -/
inductive Flag
  | quiet
  | nick
  | join
  | account
  | channel
  | realname
  | mark
  | markua
  | negatemask
  | nochild
  deriving DecidableEq

/-- The types of masks. `EBAN_MASKTYPE`. -/
def Flag.isMasktype : Flag → Bool
  | .join | .account | .channel | .realname | .mark | .markua => true
  | _ => false

/-- The flags of a character; none of them is zero. `extban_list`, `get_extban_flags`. -/
def getExtbanFlags (c : Char) : List Flag :=
  if c = 'q' then [.quiet]
  else if c = 'n' then [.nick]
  else if c = 'j' then [.nochild, .join]
  else if c = 'a' then [.nochild, .account]
  else if c = 'c' then [.nochild, .channel]
  else if c = 'r' then [.nochild, .realname]
  else if c = 'm' then [.nochild, .mark]
  else if c = 'M' then [.nochild, .markua]
  else if c = '!' then [.negatemask]
  else []

/-- What has been read of an extended ban. `channel.h` `struct ExtBan`, `parse_extban`. -/
structure Parsed where
  flags : List Flag
  /-- `prefix`, with `prefixlen` characters. -/
  pre : Str
  mask : Str
  nuLen : ℕ
  deriving DecidableEq

/-- Put a character and its flags behind the prefix. `parse_extban`. -/
def Parsed.push (x : Parsed) (c : Char) (flags : List Flag) : Parsed :=
  { x with flags := x.flags ++ flags, pre := x.pre ++ [c] }

/-- The mask is complete: with no type of its own it is one of nicks, users and hosts. `parse_extban`. -/
def Parsed.finish (x : Parsed) : Parsed :=
  let x :=
    if x.flags.any Flag.isMasktype then x
    else
      let mask := (Crule.collapse (prettyMask x.mask)).take (banstrSize - 1)
      { x with mask := mask, nuLen := (beforeLast '@' mask).length }
  { x with flags := x.flags.filter (· ≠ .nochild) }

/-- Parse an extended ban, with so many levels left: 1 when it is one, zero when it is an ordinary mask, or
-1. Behind a negated type nobody asks whether the text has come to its end; what lies there is taken to be
another end. -/
def parseExtban : ℕ → Str → Parsed → ℤ × Parsed
  | 0, _, x => (-1, x)
  | _ + 1, [], x => (-1, x)
  | n + 1, c :: b, x =>
    if c ≠ '~' then (0, x)
    else
      match b with
      | [] => (-1, x.push c [])
      | d :: b =>
        let x := (x.push c []).push d (getExtbanFlags d)
        if getExtbanFlags d = [] then (-1, x)
        else if b = [] then (0, x)
        else
          let more := if .negatemask ∈ getExtbanFlags d then (b.head?.map getExtbanFlags).getD [] else []
          let y := if more ≠ [] then (b.head?.map fun e => x.push e more).getD x else x
          let b := if more ≠ [] then b.drop 1 else b
          -- the delimiter may be anything
          let y := (b.head?.map fun e => y.push e []).getD y
          let b := b.drop 1
          if b = [] then (0, y)
          else if .nochild ∈ y.flags then (1, { y with mask := b.take (banstrSize - 1) }.finish)
          else
            let r := parseExtban n b y
            if r.1 = 0 then (1, { r.2 with mask := b.take (banstrSize - 1) }.finish) else r

/-- Nothing has been read. `pretty_extmask` (`memset`). -/
def Parsed.start : Parsed := ⟨[], [], [], 0⟩

/-- How deep the types may be nested. `parse_extban`. -/
def maxLevel : ℕ := 5

def prettyExtmask (mask : Str) : Option Str :=
  let r := parseExtban maxLevel mask .start
  if r.1 = 0 then some (Crule.collapse (prettyMask mask))
  else if r.1 < 0 then none
  else some ((r.2.pre ++ r.2.mask).take (banstrSize - 1))

example : prettyExtmask "spam.com".toList = some "*!*@spam.com".toList ∧
    prettyExtmask "~!a:x*".toList = some "~!a:x*".toList ∧
    prettyExtmask "~q:bad".toList = some "~q:bad!*@*".toList ∧ prettyExtmask "~x".toList = none := by
  decide +kernel

/-! ### What is read from the text -/

/-- A mask. `channel.h` `struct Ban`. -/
structure Mask where
  banstr : Str
  nuLen : ℕ
  /-- `BAN_IPMASK` with `address` and `addrbits`. -/
  ipmask : Option (List ℕ × ℕ)
  /-- `BAN_EXTENDED` with. -/
  extban : Option ExtBan
  deriving DecidableEq

/-- What the mask of an extended ban is compared with: the first type in the order of `find_ban`. -/
def Parsed.what (x : Parsed) : What :=
  if .account ∈ x.flags then .account x.mask
  else if .realname ∈ x.flags then .realname x.mask
  else if .mark ∈ x.flags then .mark x.mask
  else if .markua ∈ x.flags then .markua x.mask
  else if .channel ∈ x.flags then .channel x.mask
  else if .join ∈ x.flags then .join x.mask
  else if x.nuLen ≠ 0 then .mask (x.mask.take x.nuLen) (x.mask.drop (x.nuLen + 1))
  else .bare

/-- `channel.h` `struct ExtBan`. -/
def Parsed.extban (x : Parsed) : ExtBan where
  quiet := .quiet ∈ x.flags
  nick := .nick ∈ x.flags
  negatemask := .negatemask ∈ x.flags
  what := x.what

/-- The address of a host mask. Where the text says nothing of the length, the length is the zero that
`make_ban` leaves. `set_ban_mask`. -/
def hostAddress (host : Str) : Option (List ℕ × ℕ) :=
  match ipmaskParseBits host with
  | some (groups, pos, bits) => if pos = 0 then none else some (groups, bits.getD 0)
  | none => none

/-- Set the mask for a ban, checking for IP masks. -/
def setBanMask (banstr : Str) : Mask :=
  let r := parseExtban maxLevel banstr .start
  let text := banstr.take (banstrSize - 1)
  if 0 < r.1 then
    let x := r.2
    if !x.flags.any Flag.isMasktype && '@' ∈ x.mask then
      { banstr := text
        nuLen := (beforeLast '@' x.mask).length + x.pre.length
        ipmask := hostAddress (afterLast '@' x.mask)
        extban := some x.extban }
    else { banstr := text, nuLen := 0, ipmask := none, extban := some x.extban }
  else if '@' ∈ banstr then
    { banstr := text
      nuLen := (beforeLast '@' banstr).length
      ipmask := hostAddress (afterLast '@' banstr)
      extban := none }
  else { banstr := text, nuLen := 0, ipmask := none, extban := none }

/-- In front of the at sign. `find_ban`, `bmatch`. -/
def Mask.nu (b : Mask) : Str := b.banstr.take b.nuLen

/-- Behind it. `find_ban`. -/
def Mask.hostmask (b : Mask) : Str := b.banstr.drop (b.nuLen + 1)

/-- What `find_ban` reads of a ban. On the lists of a channel there are no bans with `BAN_EXCEPTION`. `find_ban`. -/
def Mask.ban (b : Mask) : Ban where
  exception := false
  ipmask := b.ipmask
  extban := b.extban
  nu := b.nu
  hostmask := b.hostmask

/-- Compare one ban's extent to another: zero when `oldBan` is a superset of `newBan`. On the lists of a channel
there are no bans with `BAN_EXCEPTION`. -/
def bmatch (oldBan newBan : Mask) : ℕ :=
  match oldBan.ipmask, newBan.ipmask with
  | some (oldAddress, oldBits), some (newAddress, newBits) =>
    if newBits < oldBits then 1
    else if mmatch oldBan.nu newBan.nu ≠ 0 then mmatch oldBan.nu newBan.nu
    else if !IPcheck.ipmaskCheck newAddress oldAddress oldBits then 1
    else mmatch oldBan.banstr newBan.banstr
  | _, _ => mmatch oldBan.banstr newBan.banstr

example : bmatch (setBanMask "*!*@10.0.0.0/8".toList) (setBanMask "*!*@10.1.2.3".toList) = 1 ∧
    bmatch (setBanMask "*!*@10.*".toList) (setBanMask "*!*@10.1.2.3".toList) = 0 ∧
    bmatch (setBanMask "~!a:x*".toList) (setBanMask "~!a:xy".toList) = 0 := by decide +kernel

end Nefarious.BanMask

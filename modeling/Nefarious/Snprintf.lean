import Nefarious.Strings
import Mathlib.Data.List.Forall2
import Mathlib.Data.Nat.Digits.Defs

/-!
# Formatted output

A format is read once, character by character; a conversion takes its arguments and appends to a buffer, in
which what does not fit is counted.

Names: `ircd_snprintf.c`.
-/

namespace Nefarious.Snprintf

open Function (update)
open List (foldl_cons length_cons map_cons map_nil map_tail)

/-! ### The buffer -/

/-- A description of a buffer, and what was written to memory. `struct BufData`. -/
@[ext]
structure BufData where
  mem : ℕ → Option Char
  buf : ℕ
  bufSize : ℕ
  bufOverflow : ℕ
  bufLoc : ℕ
  limit : ℤ
  overflow : ℕ

/-- Append a character, unless something overflowed before. `addc`, `adds`. -/
def put (b : BufData) (overflow : Bool) (c : Char) : BufData × Bool :=
  let overflow := overflow || b.limit = 0 || b.bufSize ≤ b.bufLoc
  ({ b with
      overflow := if b.limit = 0 then b.overflow + 1 else b.overflow
      limit := if 0 < b.limit then b.limit - 1 else b.limit
      bufOverflow := if b.bufSize ≤ b.bufLoc then b.bufOverflow + 1 else b.bufOverflow
      mem := if overflow then b.mem else update b.mem (b.buf + b.bufLoc) (some c)
      bufLoc := if overflow then b.bufLoc else b.bufLoc + 1 }, overflow)

/-- `addc`. -/
def addc (b : BufData) (c : Char) : BufData := (put b false c).1

/-- The loop of `adds`. -/
def addsLoop (b : BufData) (overflow : Bool) : ℤ → Str → BufData
  | _, [] => b
  | sLen, c :: s =>
    if sLen = 0 then b
    else addsLoop (put b overflow c).1 (put b overflow c).2 (if 0 < sLen then sLen - 1 else sLen) s

/-- `adds`. -/
def adds (b : BufData) (sLen : ℤ) (s : Str) : BufData := addsLoop b false sLen s

/-- `PAD_LENGTH`. -/
def padLength : ℕ := 50

/-- Padding with the character of a padding string. -/
def doPad (pad : Char) (b : BufData) (padlen : ℕ) : BufData :=
  if padLength < padlen then
    doPad pad (adds b padLength (List.replicate padLength pad)) (padlen - padLength)
  else adds b padlen (List.replicate padLength pad)
termination_by padlen
decreasing_by simp [padLength] at *; omega

/-- `my_strnlen`. -/
def myStrnlen : Str → ℤ → ℕ
  | [], _ => 0
  | _ :: str, maxlen => if maxlen = 0 then 0 else myStrnlen str (maxlen - 1) + 1

/-! ### Fields -/

/-- `doprintf` (`state`). -/
inductive State where
  | flag
  | width
  | dot
  | prec
  | opt
deriving DecidableEq

/-- The order of the states. `doprintf` (`state`). -/
def State.rank : State → ℕ
  | .flag => 0
  | .width => 1
  | .dot => 2
  | .prec => 3
  | .opt => 4

/-- The type of a number. `TYPE_CHAR` to `TYPE_POINTER`. -/
inductive Ty where
  | int
  | char
  | short
  | long
  | quad
  | intmax
  | ptrdiff
  | size
  | time
  | pointer
deriving DecidableEq

/-- `BASE_OCTAL`, `BASE_DECIMAL`, `BASE_HEX`. -/
inductive Base where
  | octal
  | decimal
  | hex
deriving DecidableEq

/-- `CONV_INT` to `CONV_CHANNEL`. -/
inductive Conv where
  | int
  | char
  | string
  | varargs
  | client
  | channel
deriving DecidableEq

/-- `struct FieldData`. -/
structure FieldData where
  minus : Bool
  plus : Bool
  space : Bool
  alt : Bool
  zero : Bool
  colon : Bool
  ty : Ty
  isUnsigned : Bool
  upper : Bool
  conv : Conv
  base : Base
  width : ℤ
  prec : ℤ

/-- A client. `struct Client`. -/
structure Client where
  /-- `IsServer` or `IsMe`. -/
  server : Bool
  yxx : Str
  serverYxx : Str
  name : Str
  username : Str
  host : Str

/-- An argument; a pointer to the arguments of `%v` is what is done with them. -/
inductive Val (β : Type) where
  | int (x : ℤ)
  | str (s : Str)
  | client (c : Client)
  | channel (chname : Str)
  | varargs (v : β)
  | null

/-- What the output depends on. -/
structure Env where
  /-- `dest` is a server. -/
  destServer : Bool
  /-- `strerror(errno)`. -/
  strerror : Str

/-- A conversion that is being read, and what was read of it. `doprintf` (`fstart`). -/
structure Pending where
  seen : Str
  state : State
  fld : FieldData

/-- `doprintf` ("initialize our field data"). -/
def Pending.init : Pending :=
  ⟨[], .flag, ⟨false, false, false, false, false, false, .int, false, false, .int, .decimal, 0, -1⟩⟩

/-- What a character of a conversion comes to. `doprintf`. -/
inductive Step where
  | more (p : Pending) (args : ℕ)
  | spec (fld : FieldData)
  /-- `%m`, which takes no argument. -/
  | errno (fld : FieldData)
  /-- `%n`, which writes nothing. -/
  | count
  | unsupported

/-- `short`. -/
def short (x : ℤ) : ℤ := Int.bmod x (2 ^ 16)

/-- An argument of type `int`. `va_arg`. -/
def intArg {β : Type} : List (Val β) → ℤ
  | .int x :: _ => Int.bmod x (2 ^ 32)
  | _ => 0

/-- A digit of the width or the precision. `doprintf` ("convert number"). -/
def digitStep (p : Pending) (c : Char) : Pending :=
  let state := if p.state = .flag then .width else p.state
  let d : ℤ := c.toNat - 48
  if state = .width then
    if p.fld.width < 999 then { p with state := state, fld := { p.fld with width := p.fld.width * 10 + d } }
    else { p with state := state }
  else if state = .prec then
    if p.fld.prec < 999 then { p with fld := { p.fld with prec := p.fld.prec * 10 + d } } else p
  else p

/-- A width or a precision that is an argument, and how many arguments are taken. `doprintf` (`case '*'`). -/
def starStep (p : Pending) (arg : ℤ) : Pending × ℕ :=
  if p.state.rank ≤ 1 ∧ p.fld.width ≤ 0 then
    let width := short arg
    if width < 0 then
      ({ p with state := .dot, fld := { p.fld with minus := true, width := short (-width) } }, 1)
    else ({ p with state := .dot, fld := { p.fld with width := width } }, 1)
  else if p.state = .prec ∧ p.fld.prec ≤ 0 then
    let prec := short arg
    ({ p with state := .opt, fld := { p.fld with prec := if prec < 0 then -1 else prec } }, 1)
  else (p, 0)

/-- A type of a number. `doprintf` (`case 'h'` to `case 'T'`). -/
def tyStep (p : Pending) (ty : Ty) (twice : Ty → Option Ty) : Pending :=
  if p.state.rank ≤ 4 then
    { p with state := .opt
             fld := { p.fld with ty := (twice p.fld.ty).getD (if p.fld.ty = .int then ty else p.fld.ty) } }
  else p

/-- A field without the flags that its conversion does not have. `doprintf`. -/
def FieldData.strip (fld : FieldData) (alt colon : Bool) (conv : Conv) : FieldData :=
  { fld with
    plus := false, space := false, zero := false, ty := .int, conv := conv
    alt := alt && fld.alt, colon := colon && fld.colon }

/-- A character of a conversion. `doprintf` (`switch (*fmt)`). -/
def fieldStep {β : Type} (p : Pending) (c : Char) (args : List (Val β)) : Step :=
  let fld := p.fld
  let p := { p with seen := p.seen ++ [c] }
  if c = '-' then
    if p.state = .flag then .more { p with fld := { fld with minus := true } } 0
    else if p.state = .prec then .more { p with state := .opt, fld := { fld with prec := -1 } } 0
    else .more p 0
  else if c = '+' then .more (if p.state = .flag then { p with fld := { fld with plus := true } } else p) 0
  else if c = ' ' then .more (if p.state = .flag then { p with fld := { fld with space := true } } else p) 0
  else if c = '#' then .more (if p.state = .flag then { p with fld := { fld with alt := true } } else p) 0
  else if c = ':' then .more (if p.state = .flag then { p with fld := { fld with colon := true } } else p) 0
  else if c = '0' ∧ p.state = .flag then .more { p with fld := { fld with zero := true } } 0
  else if isDigit c then .more (digitStep p c) 0
  else if c = '.' then
    .more (if p.state.rank ≤ 2 then { p with state := .prec, fld := { fld with prec := 0 } } else p) 0
  else if c = '*' then .more (starStep p (intArg args)).1 (starStep p (intArg args)).2
  else if c = 'h' then
    .more (tyStep p .short fun ty => if ty = .short ∨ ty = .char then some .char else none) 0
  else if c = 'l' then .more (tyStep p .long fun ty => if ty = .long then some .quad else none) 0
  else if c = 'q' ∨ c = 'L' then .more (tyStep p .quad fun _ => none) 0
  else if c = 'j' then .more (tyStep p .intmax fun _ => none) 0
  else if c = 't' then .more (tyStep p .ptrdiff fun _ => none) 0
  else if c = 'z' ∨ c = 'Z' then .more (tyStep p .size fun _ => none) 0
  else if c = 'T' then .more (tyStep p .time fun _ => none) 0
  else if c = 's' then .spec (fld.strip false false .string)
  else if c = 'd' ∨ c = 'i' then .spec { fld with colon := false, conv := .int }
  else if c = 'X' ∨ c = 'o' ∨ c = 'x' ∨ c = 'u' then
    .spec { fld with
      upper := c = 'X', base := if c = 'o' then .octal else if c = 'u' then .decimal else .hex
      plus := false, space := false, colon := false, isUnsigned := true, conv := .int }
  else if c = 'c' then .spec { fld.strip false false .char with ty := .char, isUnsigned := true, prec := -1 }
  else if c = 'p' then
    .spec { fld.strip false false .int with
      alt := true, zero := true, ty := .pointer, isUnsigned := true, prec := 16, base := .hex }
  else if c = 'n' then .count
  else if c = 'm' then .errno (fld.strip false false .string)
  else if c = 'v' then .spec (fld.strip false false .varargs)
  else if c = 'C' then .spec (fld.strip true true .client)
  else if c = 'H' then .spec (fld.strip false false .channel)
  else .unsupported

/-! ### Conversions -/

/-- The value of an integer argument: negative or not, and its amount. `doprintf` ("grab an integer argument").
-/
def intValue (fld : FieldData) (x : ℤ) : Bool × ℕ :=
  let bits := match fld.ty with
    | .char => 8
    | .short => 16
    | .int => 32
    | _ => 64
  if fld.isUnsigned then (false, (x % 2 ^ bits).toNat)
  else (Int.bmod x (2 ^ bits) < 0, (Int.bmod x (2 ^ bits)).natAbs)

/-- `octal`, `decimal`, `hex`, `HEX`. -/
def digitChar (upper : Bool) (d : ℕ) : Char :=
  if d < 10 then Char.ofNat (48 + d) else Char.ofNat ((if upper then 55 else 87) + d)

/-- `BASE_OCTAL`, `BASE_DECIMAL`, `BASE_HEX`. -/
def Base.radix : Base → ℕ
  | .octal => 8
  | .decimal => 10
  | .hex => 16

/-- The parts of an integer. `doprintf` ("convert an integer"). -/
structure IntParts where
  plen : ℕ
  lead : Str
  zlen : ℕ
  digits : Str

/-- The digits (three at a time, from tables), the leading zeros and the padding. `doprintf` ("convert an
integer"). -/
def intParts (fld : FieldData) (x : ℤ) : IntParts :=
  let neg := (intValue fld x).1
  let digits := ((Nat.digits fld.base.radix (intValue fld x).2).map (digitChar fld.upper)).reverse
  let hexAlt := fld.base = .hex && fld.alt
  let elen : ℤ := if hexAlt then 2 else 0
  let zeros := fld.prec < 0 && !fld.minus && fld.zero && fld.width ≠ 0
  let prec := if zeros then fld.width - elen else if fld.prec < 0 then 1 else fld.prec
  let width := if zeros then 0 else fld.width
  let sign : Str := if neg then ['-'] else if fld.plus then ['+'] else if fld.space then [' '] else []
  let elen := elen + sign.length
  let zlen : ℤ := max (prec - digits.length) 0
  let zlen := if fld.base = .octal ∧ zlen = 0 ∧ fld.alt then 1 else zlen
  { plen := (width - (digits.length + zlen + elen)).toNat
    lead := sign ++ if hexAlt then ['0', if fld.upper then 'X' else 'x'] else []
    zlen := zlen.toNat
    digits := digits }

/-- The strings of a client with their lengths. `doprintf` (`CONV_CLIENT`). -/
structure ClientParts where
  plen : ℕ
  colon : Bool
  str1 : Str
  slen1 : ℕ
  alt : Bool
  str2 : Str
  slen2 : ℕ
  str3 : Str
  slen3 : ℕ

/-- `doprintf` (`CONV_CLIENT`). -/
def clientParts (env : Env) (fld : FieldData) (c : Client) : ClientParts :=
  let alt := !env.destServer && !c.server && fld.alt
  let colon := !env.destServer && fld.colon
  let str1 := if env.destServer then if c.server then c.yxx else c.serverYxx
    else if c.name = [] then ['*'] else c.name
  let str2 : Option Str := if env.destServer then if c.server then none else some c.yxx
    else if alt then some c.username else none
  let str3 : Option Str := if alt then some c.host else none
  let elen : ℤ := if colon then 1 else 0
  let slen1 := myStrnlen str1 (if fld.prec < 0 then -1 else fld.prec - elen)
  let elen := elen + if alt then 1 else 0
  let slen2 := str2.elim 0 fun str2 =>
    if fld.prec < 0 then myStrnlen str2 (-1)
    else if 0 < fld.prec - (slen1 + elen) then myStrnlen str2 (fld.prec - (slen1 + elen)) else 0
  let elen := elen + if alt then 1 else 0
  let slen3 := str3.elim 0 fun str3 =>
    if fld.prec < 0 then myStrnlen str3 (-1)
    else if 0 < fld.prec - (slen1 + slen2 + elen) then myStrnlen str3 (fld.prec - (slen1 + slen2 + elen)) else 0
  { plen := (fld.width - (slen1 + slen2 + slen3 + elen)).toNat
    colon := colon, str1 := str1, slen1 := slen1, alt := alt
    str2 := str2.getD [], slen2 := slen2, str3 := str3.getD [], slen3 := slen3 }

/-- Something between paddings. `doprintf` ("pre-padding", "post-padding"). -/
def padded (minus : Bool) (plen : ℕ) (body : BufData → BufData) (b : BufData) : BufData :=
  let b := body (if 0 < plen && !minus then doPad ' ' b plen else b)
  if 0 < plen && minus then doPad ' ' b plen else b

/-- `doprintf` (`CONV_INT`). -/
def convertInt (fld : FieldData) (x : ℤ) : BufData → BufData :=
  let p := intParts fld x
  padded fld.minus p.plen fun b =>
    let b := p.lead.foldl addc b
    let b := if 0 < p.zlen then doPad '0' b p.zlen else b
    adds b p.digits.length p.digits

/-- `doprintf` (`CONV_STRING`). -/
def convertString (fld : FieldData) (str : Str) : BufData → BufData :=
  let slen := myStrnlen str fld.prec
  padded fld.minus (fld.width - slen).toNat fun b => adds b slen str

/-- `doprintf` (`CONV_CLIENT`). -/
def convertClient (env : Env) (fld : FieldData) (c : Client) : BufData → BufData :=
  let p := clientParts env fld c
  padded fld.minus p.plen fun b =>
    let b := if p.colon then addc b ':' else b
    let b := adds b p.slen1 p.str1
    let b := if p.alt then addc b '!' else b
    let b := adds b p.slen2 p.str2
    let b := if p.alt then addc b '@' else b
    adds b p.slen3 p.str3

/-- A format with arguments of its own, with a descriptor of its own for the rest of the buffer. `doprintf` (`CONV_VARARGS`). -/
def convertVarargs (fld : FieldData) (body : BufData → BufData) (b : BufData) : BufData :=
  let s := body ⟨b.mem, b.buf + b.bufLoc, b.bufSize - b.bufLoc, 0, 0, fld.prec, 0⟩
  -- the difference is a `size_t`, the padding an `int`
  let diff : ℤ := (fld.width - s.bufLoc) % 2 ^ 64
  let plen : ℤ := if diff ≤ 0 then 0 else Int.bmod diff (2 ^ 32)
  let b := { b with mem := s.mem }
  if 0 < plen then
    let plen := plen.toNat
    if fld.minus then
      doPad ' ' { b with bufLoc := b.bufLoc + s.bufLoc, bufOverflow := b.bufOverflow + s.bufOverflow } plen
    else if s.bufSize < plen then
      let b := doPad ' ' b plen
      { b with bufOverflow := b.bufOverflow + (s.bufOverflow + s.bufLoc) }
    else
      let tlen := min s.bufLoc (s.bufSize - plen)
      let moved := fun i => if s.buf + plen ≤ i ∧ i < s.buf + plen + tlen then s.mem (i - plen) else s.mem i
      let b := doPad ' ' { b with mem := moved } plen
      { b with
        bufOverflow := b.bufOverflow + (s.bufOverflow + (s.bufLoc - tlen)), bufLoc := b.bufLoc + tlen }
  else { b with bufLoc := b.bufLoc + s.bufLoc, bufOverflow := b.bufOverflow + s.bufOverflow }

/-- A conversion; a pointer that is null is printed as a string. `doprintf`. -/
def convert (env : Env) (fld : FieldData) (arg : Val (BufData → BufData)) : BufData → BufData :=
  match fld.conv, arg with
  | .int, .int x => convertInt fld x
  | .char, .int x => padded fld.minus (fld.width - 1).toNat fun b => addc b (Char.ofNat (intValue fld x).2)
  | .string, .str s => convertString fld s
  | .varargs, .varargs body => convertVarargs fld body
  | .client, .client c => convertClient env fld c
  | .channel, .channel chname => convertString fld chname
  | .int, _ => convertInt fld 0
  | _, _ => convertString fld "(null)".toList

/-- `doprintf` ("Unsupported"). -/
def unsupported (field : Str) (b : BufData) : BufData :=
  addc (adds (adds b (-1) "(Unsupported: %".toList) field.length field) ')'

/-- The loop over a format, in a conversion or not. -/
def doprintf (env : Env) : Option Pending → List (Val (BufData → BufData)) → Str → BufData → BufData
  | _, _, [], b => b
  | none, args, c :: fmt, b =>
    if c = '%' then doprintf env (some .init) args fmt b else doprintf env none args fmt (addc b c)
  | some p, args, c :: fmt, b =>
    if c = '%' ∧ p.seen = [] then doprintf env none args fmt (addc b c)
    else
      match fieldStep p c args with
      | .more p n => doprintf env (some p) (args.drop n) fmt b
      | .spec fld => doprintf env none args.tail fmt (convert env fld (args.headD .null) b)
      | .errno fld => doprintf env none args fmt (convertString fld env.strerror b)
      | .count => doprintf env none args.tail fmt b
      | .unsupported => doprintf env none args fmt (unsupported (p.seen ++ [c]) b)

/-- An argument; the one of `%v` is a format and its arguments. `ircd_snprintf.h` `struct VarData`. -/
inductive Arg where
  | int (x : ℤ)
  | str (s : Str)
  | client (c : Client)
  | channel (chname : Str)
  | varargs (vdFormat : Str) (vdArgs : List Arg)
  | null

/-- What is done with an argument, when `f` is done with a format and its arguments. -/
def Arg.val {β : Type} (f : List (Val β) → Str → β) : Arg → Val β
  | .int x => .int x
  | .str s => .str s
  | .client c => .client c
  | .channel chname => .channel chname
  | .varargs vdFormat vdArgs => .varargs (f (vdArgs.map (Arg.val f)) vdFormat)
  | .null => .null

/-- Memory and the number that is returned; `buf_len - 1` is a `size_t`. `ircd_snprintf`. -/
def snprintf (env : Env) (bufLen : ℕ) (format : Str) (args : List Arg) : (ℕ → Option Char) × ℤ :=
  let b := doprintf env none (args.map (Arg.val (doprintf env none))) format
    ⟨fun _ => none, 0, (bufLen + (2 ^ 64 - 1)) % 2 ^ 64, 0, 0, -1, 0⟩
  (update b.mem (b.buf + b.bufLoc) (some '\x00'),
    Int.bmod (b.bufLoc + max b.bufOverflow b.overflow) (2 ^ 32))

/-! ### What is to be written -/

def paddedText (minus : Bool) (plen : ℕ) (body : Str) : Str :=
  (if minus then [] else List.replicate plen ' ') ++ body ++ if minus then List.replicate plen ' ' else []

def intText (fld : FieldData) (x : ℤ) : Str :=
  let p := intParts fld x
  paddedText fld.minus p.plen (p.lead ++ List.replicate p.zlen '0' ++ p.digits)

def stringText (fld : FieldData) (str : Str) : Str :=
  let slen := myStrnlen str fld.prec
  paddedText fld.minus (fld.width - slen).toNat (str.take slen)

def clientText (env : Env) (fld : FieldData) (c : Client) : Str :=
  let p := clientParts env fld c
  paddedText fld.minus p.plen ((if p.colon then [':'] else []) ++ p.str1.take p.slen1 ++
    (if p.alt then ['!'] else []) ++ p.str2.take p.slen2 ++ (if p.alt then ['@'] else []) ++ p.str3.take p.slen3)

def convertText (env : Env) (fld : FieldData) (arg : Val Str) : Str :=
  match fld.conv, arg with
  | .int, .int x => intText fld x
  | .char, .int x => paddedText fld.minus (fld.width - 1).toNat [Char.ofNat (intValue fld x).2]
  | .string, .str s => stringText fld s
  | .varargs, .varargs body => body
  | .client, .client c => clientText env fld c
  | .channel, .channel chname => stringText fld chname
  | .int, _ => intText fld 0
  | _, _ => stringText fld "(null)".toList

/-- **The text of a format**. -/
def text (env : Env) : Option Pending → List (Val Str) → Str → Str
  | _, _, [] => []
  | none, args, c :: fmt => if c = '%' then text env (some .init) args fmt else c :: text env none args fmt
  | some p, args, c :: fmt =>
    if c = '%' ∧ p.seen = [] then c :: text env none args fmt
    else
      match fieldStep p c args with
      | .more p n => text env (some p) (args.drop n) fmt
      | .spec fld => convertText env fld (args.headD .null) ++ text env none args.tail fmt
      | .errno fld => stringText fld env.strerror ++ text env none args fmt
      | .count => text env none args.tail fmt
      | .unsupported => "(Unsupported: %".toList ++ (p.seen ++ [c]) ++ [')'] ++ text env none args fmt

/-- Each `%v` has neither width nor precision, and so have those in its format. -/
def OnlyPlain : Option Pending → List (Val Prop) → Str → Prop
  | _, _, [] => True
  | none, args, c :: fmt => if c = '%' then OnlyPlain (some .init) args fmt else OnlyPlain none args fmt
  | some p, args, c :: fmt =>
    if c = '%' ∧ p.seen = [] then OnlyPlain none args fmt
    else
      match fieldStep p c args with
      | .more p n => OnlyPlain (some p) (args.drop n) fmt
      | .spec fld => (∀ plain, fld.conv = .varargs → args.headD .null = .varargs plain →
          fld.width = 0 ∧ fld.prec < 0 ∧ plain) ∧ OnlyPlain none args.tail fmt
      | .errno _ => OnlyPlain none args fmt
      | .count => OnlyPlain none args.tail fmt
      | .unsupported => OnlyPlain none args fmt

/-! ### Appending -/

section
variable {b : BufData} {c : Char}

@[simp]
lemma addc_limit (h : b.limit < 0) : (addc b c).limit = b.limit := by
  unfold addc put
  simp only [not_lt_of_gt h, if_false]

@[simp]
lemma addc_buf : (addc b c).buf = b.buf := rfl

@[simp]
lemma addc_bufSize : (addc b c).bufSize = b.bufSize := rfl

lemma foldl_limit {t : Str} (h : b.limit < 0) : (t.foldl addc b).limit = b.limit := by
  induction t generalizing b with
  | nil => rfl
  | cons c t ih =>
    have hc := @addc_limit b c h
    exact (ih (hc.symm ▸ h)).trans hc

/-- **A part of the output appends a text**, where no limit is set. -/
def Appends (g : BufData → BufData) (t : Str) : Prop := ∀ b : BufData, b.limit < 0 → g b = t.foldl addc b

lemma Appends.comp {g g' : BufData → BufData} {t t' : Str} (h : Appends g t) (h' : Appends g' t') :
    Appends (fun b => g' (g b)) (t ++ t') := by
  intro b hb
  have hlimit := foldl_limit (t := t) hb
  show g' (g b) = (t ++ t').foldl addc b
  rw [h b hb, h' _ (hlimit.symm ▸ hb), List.foldl_append]

lemma appends_nil : Appends (fun b => b) [] := fun _ _ => rfl

lemma appends_addc (c : Char) : Appends (fun b => addc b c) [c] := fun _ _ => rfl

lemma Appends.ite {p : Prop} [Decidable p] {g g' : BufData → BufData} {t t' : Str} (h : p → Appends g t)
    (h' : ¬ p → Appends g' t') : Appends (fun b => if p then g b else g' b) (if p then t else t') := by
  intro b hb
  by_cases hp : p
  · simp only [if_pos hp]
    exact h hp b hb
  · simp only [if_neg hp]
    exact h' hp b hb

lemma put_eq {overflow : Bool} (hb : b.limit < 0) (h : overflow = true → b.bufSize ≤ b.bufLoc) :
    put b overflow c = (addc b c, decide (b.bufSize ≤ b.bufLoc)) := by
  have hne : b.limit ≠ 0 := ne_of_lt hb
  have hover : (overflow || decide (b.limit = 0) || decide (b.bufSize ≤ b.bufLoc)) =
      decide (b.bufSize ≤ b.bufLoc) := by
    cases overflow with
    | true => simp [h rfl]
    | false => simp [hne]
  have hover' : (false || decide (b.limit = 0) || decide (b.bufSize ≤ b.bufLoc)) =
      decide (b.bufSize ≤ b.bufLoc) := by simp [hne]
  unfold addc put
  simp only [hover, hover']

lemma addsLoop_eq {overflow : Bool} {sLen : ℤ} {s : Str} (hb : b.limit < 0)
    (h : overflow = true → b.bufSize ≤ b.bufLoc) :
    addsLoop b overflow sLen s = (if sLen < 0 then s else s.take sLen.toNat).foldl addc b := by
  induction s generalizing b overflow sLen with
  | nil => simp [addsLoop]
  | cons c s ih =>
    unfold addsLoop
    by_cases hzero : sLen = 0
    · simp [hzero]
    · have hover : decide (b.bufSize ≤ b.bufLoc) = true → (addc b c).bufSize ≤ (addc b c).bufLoc := by
        intro hle
        have hle := of_decide_eq_true hle
        unfold addc put
        simp only [hle, decide_true, Bool.or_true, if_true]
      rw [if_neg hzero, put_eq hb h, ih ((addc_limit hb).symm ▸ hb) hover]
      by_cases hneg : sLen < 0
      · rw [if_neg (not_lt_of_gt hneg), if_pos hneg, if_pos hneg, foldl_cons]
      · obtain ⟨n, rfl⟩ : ∃ n : ℕ, sLen = n + 1 := ⟨(sLen - 1).toNat, by omega⟩
        have hpos : (0 : ℤ) < n + 1 := by omega
        rw [if_pos hpos, if_neg hneg, if_neg (by omega), show ((n : ℤ) + 1 - 1).toNat = n by omega,
          show ((n : ℤ) + 1).toNat = n + 1 by omega, List.take_succ_cons, foldl_cons]

lemma appends_adds (n : ℕ) (s : Str) : Appends (fun b => adds b n s) (s.take n) := by
  intro b hb
  have h := @addsLoop_eq b false n s hb (fun h => nomatch h)
  rw [if_neg (by omega), Int.toNat_natCast] at h
  exact h

lemma appends_doPad (pad : Char) (n : ℕ) : Appends (fun b => doPad pad b n) (List.replicate n pad) := by
  induction n using Nat.strong_induction_on with
  | _ n ih =>
    intro b hb
    show doPad pad b n = _
    unfold doPad
    split
    · next hlt =>
      have hless : n - padLength < n := by
        unfold padLength at *
        omega
      have h := (appends_adds padLength (List.replicate padLength pad)).comp (ih _ hless) b hb
      have hsum : padLength + (n - padLength) = n := by omega
      rw [List.take_replicate, Nat.min_self, List.replicate_append_replicate, hsum] at h
      exact h
    · next hle =>
      have h := appends_adds n (List.replicate padLength pad) b hb
      rw [List.take_replicate, Nat.min_eq_left (Nat.le_of_not_lt hle)] at h
      exact h

lemma Appends.when {p : Prop} [Decidable p] {g : BufData → BufData} {t : Str} (h : p → Appends g t) :
    Appends (fun b => if p then g b else b) (if p then t else []) :=
  Appends.ite h fun _ => appends_nil

lemma appends_pad {p : Bool} (plen : ℕ) : Appends (fun b => if 0 < plen && p then doPad ' ' b plen else b)
    (if p then List.replicate plen ' ' else []) := by
  have h := @Appends.when ((0 < plen && p) = true) _ _ _ fun _ => appends_doPad ' ' plen
  cases p with
  | false => simpa using h
  | true =>
    by_cases hpos : 0 < plen
    · simpa [hpos] using h
    · obtain rfl : plen = 0 := Nat.eq_zero_of_not_pos hpos
      exact h

lemma Appends.padded {minus : Bool} {plen : ℕ} {body : BufData → BufData} {t : Str} (h : Appends body t) :
    Appends (Snprintf.padded minus plen body) (paddedText minus plen t) := by
  have hpre := @appends_pad (!minus) plen
  have hpost := @appends_pad minus plen
  have hall := (hpre.comp h).comp hpost
  unfold paddedText
  cases minus with
  | false => exact hall
  | true => exact hall

lemma appends_foldl (t : Str) : Appends (fun b => t.foldl addc b) t := fun _ _ => rfl

lemma appends_convertInt (fld : FieldData) (x : ℤ) : Appends (convertInt fld x) (intText fld x) := by
  have hdigits := appends_adds (intParts fld x).digits.length (intParts fld x).digits
  rw [List.take_length] at hdigits
  have hzeros : Appends (fun b => if 0 < (intParts fld x).zlen then doPad '0' b (intParts fld x).zlen else b)
      (List.replicate (intParts fld x).zlen '0') := by
    have h := @Appends.when (0 < (intParts fld x).zlen) _ _ _ fun _ => appends_doPad '0' (intParts fld x).zlen
    by_cases hpos : 0 < (intParts fld x).zlen
    · rwa [if_pos hpos] at h
    · rw [if_neg hpos] at h
      rwa [Nat.eq_zero_of_not_pos hpos] at h ⊢
  exact (((appends_foldl (intParts fld x).lead).comp hzeros).comp hdigits).padded

lemma appends_convertString (fld : FieldData) (str : Str) :
    Appends (convertString fld str) (stringText fld str) :=
  (appends_adds (myStrnlen str fld.prec) str).padded

lemma appends_convertClient (env : Env) (fld : FieldData) (c : Client) :
    Appends (convertClient env fld c) (clientText env fld c) := by
  generalize hp : clientParts env fld c = p
  have hchar : ∀ (q : Bool) (ch : Char),
      Appends (fun b => if q then addc b ch else b) (if q then [ch] else []) :=
    fun q ch => Appends.when fun _ => appends_addc ch
  unfold convertClient clientText
  rw [hp]
  exact ((((((hchar p.colon ':').comp (appends_adds p.slen1 p.str1)).comp (hchar p.alt '!')).comp
    (appends_adds p.slen2 p.str2)).comp (hchar p.alt '@')).comp (appends_adds p.slen3 p.str3)).padded

/-- A buffer with what was written through a descriptor of its own for the rest of it. `doprintf` ("no padding,
but remember mods"). -/
def merge (b s : BufData) : BufData :=
  { b with mem := s.mem, bufLoc := b.bufLoc + s.bufLoc, bufOverflow := b.bufOverflow + s.bufOverflow }

lemma merge_addc {b s : BufData} {c : Char} (hb : b.limit < 0) (hs : s.limit < 0)
    (hbuf : s.buf = b.buf + b.bufLoc) (hsize : s.bufSize = b.bufSize - b.bufLoc) :
    merge b (addc s c) = addc (merge b s) c := by
  have hfull : s.bufSize ≤ s.bufLoc ↔ b.bufSize ≤ b.bufLoc + s.bufLoc := by omega
  unfold merge addc put
  by_cases h : s.bufSize ≤ s.bufLoc
  · simp [h, hfull.mp h, ne_of_lt hb, ne_of_lt hs, not_lt_of_gt hb, Nat.add_assoc]
  · have h' : ¬ b.bufSize ≤ b.bufLoc + s.bufLoc := fun h' => h (hfull.mpr h')
    simp only [h, h', ne_of_lt hb, ne_of_lt hs, not_lt_of_gt hb, hbuf, Nat.add_assoc, if_false, decide_false,
      Bool.or_self, Bool.false_eq_true]

lemma merge_foldl {t : Str} {b s : BufData} (hb : b.limit < 0) (hs : s.limit < 0)
    (hbuf : s.buf = b.buf + b.bufLoc) (hsize : s.bufSize = b.bufSize - b.bufLoc) :
    merge b (t.foldl addc s) = t.foldl addc (merge b s) := by
  induction t generalizing s with
  | nil => rfl
  | cons c t ih =>
    have hlimit : (addc s c).limit < 0 := (addc_limit hs).symm ▸ hs
    rw [foldl_cons, foldl_cons, ih hlimit hbuf hsize, merge_addc hb hs hbuf hsize]

lemma foldl_bufLoc {t : Str} {b : BufData} : (t.foldl addc b).bufLoc ≤ b.bufLoc + t.length := by
  induction t generalizing b with
  | nil => exact le_rfl
  | cons c t ih =>
    have hc : (addc b c).bufLoc ≤ b.bufLoc + 1 := by
      unfold addc put
      dsimp only
      split
      · exact Nat.le_succ _
      · exact le_rfl
    rw [foldl_cons, length_cons]
    have h := @ih (addc b c)
    omega

/-- **A `%v` without width and precision** appends what its format appends, when that is not longer than an
`int` can say. -/
theorem appends_convertVarargs {fld : FieldData} {body : BufData → BufData} {t : Str} (h : Appends body t)
    (hwidth : fld.width = 0) (hprec : fld.prec < 0) (hlength : t.length < 2 ^ 31) :
    Appends (convertVarargs fld body) t := by
  intro b hb
  have hs := h ⟨b.mem, b.buf + b.bufLoc, b.bufSize - b.bufLoc, 0, 0, fld.prec, 0⟩ hprec
  have hloc := @foldl_bufLoc t ⟨b.mem, b.buf + b.bufLoc, b.bufSize - b.bufLoc, 0, 0, fld.prec, 0⟩
  have hmerge := @merge_foldl t b ⟨b.mem, b.buf + b.bufLoc, b.bufSize - b.bufLoc, 0, 0, fld.prec, 0⟩ hb hprec
    rfl rfl
  rw [show merge b ⟨b.mem, b.buf + b.bufLoc, b.bufSize - b.bufLoc, 0, 0, fld.prec, 0⟩ = b from rfl] at hmerge
  unfold convertVarargs
  simp only [hs, hwidth]
  generalize t.foldl addc ⟨b.mem, b.buf + b.bufLoc, b.bufSize - b.bufLoc, 0, 0, fld.prec, 0⟩ = s at hloc hmerge
  have hplen : ¬ 0 < (if (0 - (s.bufLoc : ℤ)) % 2 ^ 64 ≤ 0 then (0 : ℤ)
      else Int.bmod ((0 - (s.bufLoc : ℤ)) % 2 ^ 64) (2 ^ 32)) := by
    dsimp only at hloc
    split
    · exact lt_irrefl 0
    · have hmod : (0 - (s.bufLoc : ℤ)) % 2 ^ 64 = 2 ^ 64 - s.bufLoc := by omega
      have hrest : (2 ^ 64 - (s.bufLoc : ℤ)) % 2 ^ 32 = 2 ^ 32 - s.bufLoc := by omega
      have hcast : ((2 ^ 32 : ℕ) : ℤ) = 2 ^ 32 := by norm_num
      rw [hmod, Int.bmod_def, hcast, hrest]
      split <;> omega
  rw [if_neg hplen]
  exact hmerge

end

/-! ### The whole output -/

section
variable {env : Env}

lemma intArg_val {β γ : Type} (f : List (Val β) → Str → β) (g : List (Val γ) → Str → γ) (args : List Arg) :
    intArg (args.map (Arg.val f)) = intArg (args.map (Arg.val g)) := by
  cases args with
  | nil => rfl
  | cons arg args => cases arg <;> simp [Arg.val, intArg]

lemma fieldStep_val {β γ : Type} (f : List (Val β) → Str → β) (g : List (Val γ) → Str → γ) (p : Pending)
    (c : Char) (args : List Arg) :
    fieldStep p c (args.map (Arg.val f)) = fieldStep p c (args.map (Arg.val g)) := by
  unfold fieldStep
  rw [intArg_val f g]

lemma headD_val {β : Type} (f : List (Val β) → Str → β) (args : List Arg) :
    (args.map (Arg.val f)).headD .null = (args.headD .null).val f := by
  cases args with
  | nil => simp [Arg.val]
  | cons arg args => rfl

/-- What is known of the arguments of a `%v`. -/
def Arg.Appends (env : Env) (arg : Arg) : Prop :=
  ∀ vdFormat vdArgs, arg = .varargs vdFormat vdArgs →
    OnlyPlain none (vdArgs.map (Arg.val (OnlyPlain none))) vdFormat →
    (text env none (vdArgs.map (Arg.val (text env none))) vdFormat).length < 2 ^ 31 →
    Snprintf.Appends (doprintf env none (vdArgs.map (Arg.val (doprintf env none))) vdFormat)
      (text env none (vdArgs.map (Arg.val (text env none))) vdFormat)

lemma appends_convert {fld : FieldData} {arg : Arg} (harg : arg.Appends env)
    (hplain : ∀ plain, fld.conv = .varargs → arg.val (OnlyPlain none) = .varargs plain →
      fld.width = 0 ∧ fld.prec < 0 ∧ plain)
    (hlength : (convertText env fld (arg.val (text env none))).length < 2 ^ 31) :
    Appends (convert env fld (arg.val (doprintf env none))) (convertText env fld (arg.val (text env none))) := by
  have hchar : ∀ x,
      Appends (padded fld.minus (fld.width - 1).toNat fun b => addc b (Char.ofNat (intValue fld x).2))
        (paddedText fld.minus (fld.width - 1).toNat [Char.ofNat (intValue fld x).2]) :=
    fun x => (appends_addc _).padded
  have hnull := appends_convertString fld "(null)".toList
  unfold convert convertText at *
  cases hconv : fld.conv with
  | varargs =>
    cases arg with
    | varargs vdFormat vdArgs =>
      simp only [hconv, Arg.val] at hlength hplain ⊢
      obtain ⟨hwidth, hprec, hp⟩ := hplain _ trivial rfl
      exact appends_convertVarargs (harg vdFormat vdArgs rfl hp hlength) hwidth hprec hlength
    | _ => simpa only [Arg.val] using hnull
  | int => cases arg <;> simp only [Arg.val] <;> exact appends_convertInt fld _
  | char =>
    cases arg with
    | int x => simpa only [Arg.val] using hchar x
    | _ => simpa only [Arg.val] using hnull
  | string => cases arg <;> simp only [Arg.val] <;> exact appends_convertString fld _
  | client =>
    cases arg with
    | client c => simpa only [Arg.val] using appends_convertClient env fld c
    | _ => simpa only [Arg.val] using hnull
  | channel => cases arg <;> simp only [Arg.val] <;> exact appends_convertString fld _

lemma appends_unsupported (field : Str) :
    Appends (unsupported field) ("(Unsupported: %".toList ++ field ++ [')']) := by
  have hfirst : Appends (fun b => adds b (-1) "(Unsupported: %".toList) "(Unsupported: %".toList :=
    fun b hb => addsLoop_eq hb (fun h => nomatch h)
  have hfield := appends_adds field.length field
  rw [List.take_length] at hfield
  exact (hfirst.comp hfield).comp (appends_addc ')')

lemma length_of_append {t t' : Str} (h : (t ++ t').length < 2 ^ 31) :
    t.length < 2 ^ 31 ∧ t'.length < 2 ^ 31 := by
  rw [List.length_append] at h
  omega

lemma doprintf_none (args : List (Val (BufData → BufData))) (c : Char) (fmt : Str) :
    doprintf env none args (c :: fmt) =
      if c = '%' then doprintf env (some .init) args fmt
      else fun b => doprintf env none args fmt (addc b c) := by
  funext b
  rw [doprintf]
  split <;> rfl

lemma doprintf_some (p : Pending) (args : List (Val (BufData → BufData))) (c : Char) (fmt : Str) :
    doprintf env (some p) args (c :: fmt) =
      if c = '%' ∧ p.seen = [] then fun b => doprintf env none args fmt (addc b c)
      else
        match fieldStep p c args with
        | .more p n => doprintf env (some p) (args.drop n) fmt
        | .spec fld => fun b => doprintf env none args.tail fmt (convert env fld (args.headD .null) b)
        | .errno fld => fun b => doprintf env none args fmt (convertString fld env.strerror b)
        | .count => doprintf env none args.tail fmt
        | .unsupported => fun b => doprintf env none args fmt (unsupported (p.seen ++ [c]) b) := by
  funext b
  rw [doprintf]
  split
  · rfl
  · cases fieldStep p c args <;> rfl

lemma doprintf_loop {fmt : Str} {p : Option Pending} {args : List Arg} (hargs : ∀ arg ∈ args, arg.Appends env)
    (hplain : OnlyPlain p (args.map (Arg.val (OnlyPlain none))) fmt)
    (hlength : (text env p (args.map (Arg.val (text env none))) fmt).length < 2 ^ 31) :
    Appends (doprintf env p (args.map (Arg.val (doprintf env none))) fmt)
      (text env p (args.map (Arg.val (text env none))) fmt) := by
  induction fmt generalizing p args with
  | nil => cases p <;> exact appends_nil
  | cons c fmt ih =>
    have htail : ∀ arg ∈ args.tail, arg.Appends env := fun arg h => hargs arg (List.mem_of_mem_tail h)
    cases p with
    | none =>
      unfold OnlyPlain at hplain
      unfold text at hlength ⊢
      rw [doprintf_none]
      by_cases hc : c = '%'
      · simp only [if_pos hc] at hplain hlength ⊢
        exact ih hargs hplain hlength
      · simp only [if_neg hc] at hplain hlength ⊢
        exact (appends_addc c).comp (ih hargs hplain (Nat.lt_of_succ_lt hlength))
    | some p =>
      unfold OnlyPlain at hplain
      unfold text at hlength ⊢
      rw [doprintf_some]
      rw [fieldStep_val _ (text env none)] at hplain
      by_cases hc : c = '%' ∧ p.seen = []
      · simp only [if_pos hc] at hplain hlength ⊢
        exact (appends_addc c).comp (ih hargs hplain (Nat.lt_of_succ_lt hlength))
      · simp only [if_neg hc, fieldStep_val (doprintf env none) (text env none)] at hplain hlength ⊢
        cases hstep : fieldStep p c (args.map (Arg.val (text env none))) with
        | more p n =>
          simp only [hstep, ← List.map_drop] at hplain hlength ⊢
          exact ih (fun arg h => hargs arg (List.mem_of_mem_drop h)) hplain hlength
        | spec fld =>
          simp only [hstep, ← map_tail, headD_val] at hplain hlength ⊢
          obtain ⟨hfst, hsnd⟩ := length_of_append hlength
          have harg : (args.headD .null).Appends env := by
            cases args with
            | nil => exact fun _ _ h => nomatch h
            | cons arg args => exact hargs arg (List.mem_cons_self ..)
          exact (appends_convert harg hplain.1 hfst).comp (ih htail hplain.2 hsnd)
        | errno fld =>
          simp only [hstep] at hplain hlength ⊢
          exact (appends_convertString fld env.strerror).comp (ih hargs hplain (length_of_append hlength).2)
        | count =>
          simp only [hstep, ← map_tail] at hplain hlength ⊢
          exact ih htail hplain hlength
        | unsupported =>
          simp only [hstep] at hplain hlength ⊢
          exact (appends_unsupported (p.seen ++ [c])).comp (ih hargs hplain (length_of_append hlength).2)

/-- **The output appends the text of the format**, to any depth of `%v`. -/
theorem doprintf_appends (args : List Arg) (fmt : Str)
    (hplain : OnlyPlain none (args.map (Arg.val (OnlyPlain none))) fmt)
    (hlength : (text env none (args.map (Arg.val (text env none))) fmt).length < 2 ^ 31) :
    Appends (doprintf env none (args.map (Arg.val (doprintf env none))) fmt)
      (text env none (args.map (Arg.val (text env none))) fmt) := by
  apply doprintf_loop _ hplain hlength
  intro arg harg vdFormat vdArgs heq hp hl
  have hless : sizeOf vdArgs < sizeOf args := by
    have hmem := List.sizeOf_lt_of_mem harg
    rw [heq, Arg.varargs.sizeOf_spec] at hmem
    omega
  exact doprintf_appends vdArgs vdFormat hp hl
termination_by sizeOf args

end

/-! ### What is in the buffer -/

lemma foldl_addc {t : Str} {b : BufData} (hb : b.limit < 0) : t.foldl addc b = { b with
      mem := fun i => if b.buf + b.bufLoc ≤ i ∧ i < b.buf + b.bufLoc + min t.length (b.bufSize - b.bufLoc) then
        t[i - (b.buf + b.bufLoc)]? else b.mem i
      bufLoc := b.bufLoc + min t.length (b.bufSize - b.bufLoc)
      bufOverflow := b.bufOverflow + (t.length - (b.bufSize - b.bufLoc)) } := by
  induction t generalizing b with
  | nil =>
    have hmem : ∀ i, ¬ (b.buf + b.bufLoc ≤ i ∧ i < b.buf + b.bufLoc) := fun i h => by omega
    simp [hmem]
  | cons c t ih =>
    rw [foldl_cons, ih ((addc_limit hb).symm ▸ hb)]
    by_cases hfull : b.bufSize ≤ b.bufLoc
    · have hfirst : addc b c = { b with bufOverflow := b.bufOverflow + 1 } := by
        unfold addc put
        simp [hfull, ne_of_lt hb, not_lt_of_gt hb]
      have hroom : b.bufSize - b.bufLoc = 0 := Nat.sub_eq_zero_of_le hfull
      have hmem : ∀ i, ¬ (b.buf + b.bufLoc ≤ i ∧ i < b.buf + b.bufLoc) := fun i h => by omega
      rw [hfirst]
      simp only [hroom, Nat.min_zero, Nat.add_zero, hmem, if_false, Nat.sub_zero, length_cons]
      congr 1
      omega
    · have hfirst : addc b c =
          { b with mem := update b.mem (b.buf + b.bufLoc) (some c), bufLoc := b.bufLoc + 1 } := by
        unfold addc put
        simp [hfull, ne_of_lt hb, not_lt_of_gt hb]
      have hmin : min (t.length + 1) (b.bufSize - b.bufLoc) = min t.length (b.bufSize - (b.bufLoc + 1)) + 1 := by
        omega
      rw [hfirst, length_cons, hmin]
      have hmem : ∀ i, (if b.buf + (b.bufLoc + 1) ≤ i ∧
            i < b.buf + (b.bufLoc + 1) + min t.length (b.bufSize - (b.bufLoc + 1)) then
            t[i - (b.buf + (b.bufLoc + 1))]? else update b.mem (b.buf + b.bufLoc) (some c) i) =
          if b.buf + b.bufLoc ≤ i ∧ i < b.buf + b.bufLoc + (min t.length (b.bufSize - (b.bufLoc + 1)) + 1) then
            (c :: t)[i - (b.buf + b.bufLoc)]? else b.mem i := by
        intro i
        rcases lt_trichotomy i (b.buf + b.bufLoc) with hlt | rfl | hgt
        · rw [if_neg (by omega), if_neg (by omega), Function.update_of_ne (ne_of_lt hlt)]
        · rw [if_neg (by omega), if_pos (by omega), Function.update_self, Nat.sub_self, List.getElem?_cons_zero]
        · obtain ⟨k, rfl⟩ : ∃ k, i = b.buf + b.bufLoc + (k + 1) := ⟨i - (b.buf + b.bufLoc) - 1, by omega⟩
          rw [Nat.add_sub_cancel_left, List.getElem?_cons_succ, Function.update_of_ne (by omega),
            show b.buf + b.bufLoc + (k + 1) - (b.buf + (b.bufLoc + 1)) = k by omega]
          apply if_congr _ rfl rfl
          omega
      simp only [hmem, BufData.mk.injEq, true_and, and_true]
      omega

def fullText (env : Env) (format : Str) (args : List Arg) : Str :=
  text env none (args.map (Arg.val (text env none))) format

/-- Each `%v`, at any depth, has neither width nor precision. -/
def Plain (format : Str) (args : List Arg) : Prop :=
  OnlyPlain none (args.map (Arg.val (OnlyPlain none))) format

/-- **Truncation is exact**: the buffer holds the first characters of the text, as many as there is room for,
and a NUL behind them, nothing else is written, and the length of the text is returned, for texts that are not
longer than an `int` can say. -/
theorem snprintf_exact {env : Env} {bufLen : ℕ} {format : Str} {args : List Arg} (hpos : 0 < bufLen)
    (hsize : bufLen < 2 ^ 64) (hplain : Plain format args)
    (hlength : (fullText env format args).length < 2 ^ 31) :
    (∀ i, (snprintf env bufLen format args).1 i =
      if i < min (fullText env format args).length (bufLen - 1) then (fullText env format args)[i]?
      else if i = min (fullText env format args).length (bufLen - 1) then some '\x00' else none) ∧
    (snprintf env bufLen format args).2 = (fullText env format args).length := by
  have hout := doprintf_appends args format hplain hlength
    ⟨fun _ => none, 0, (bufLen + (2 ^ 64 - 1)) % 2 ^ 64, 0, 0, -1, 0⟩ neg_one_lt_zero
  have hroom : (bufLen + (2 ^ 64 - 1)) % 2 ^ 64 = bufLen - 1 := by omega
  rw [hroom] at hout
  unfold snprintf
  rw [hroom, hout]
  change (fullText env format args).length < 2 ^ 31 at hlength
  change _ ∧ _
  rw [show text env none (args.map (Arg.val (text env none))) format = fullText env format args from rfl,
    foldl_addc neg_one_lt_zero]
  generalize fullText env format args = t at hlength
  simp only [Nat.zero_add, Nat.sub_zero, Nat.zero_le, true_and]
  constructor
  · intro i
    by_cases hi : i = min t.length (bufLen - 1)
    · rw [hi, Function.update_self, if_neg (lt_irrefl _), if_pos rfl]
    · rw [Function.update_of_ne hi, if_neg hi]
  · have hsum : min t.length (bufLen - 1) + max (t.length - (bufLen - 1)) 0 = t.length := by omega
    have hcast : ((2 ^ 32 : ℕ) : ℤ) = 2 ^ 32 := by norm_num
    have hmod : (t.length : ℤ) % 2 ^ 32 = t.length := by omega
    rw [← Nat.cast_add, hsum, Int.bmod_def, hcast, hmod, if_pos (by omega)]

def sampleEnv : Env := ⟨false, []⟩

theorem snprintf_exact_sample :
    (snprintf sampleEnv 4 "%.2s%v".toList [.str "abc".toList, .varargs "x%d".toList [.int 5]]).2 = 4 ∧
      (snprintf sampleEnv 4 "%.2s%v".toList [.str "abc".toList, .varargs "x%d".toList [.int 5]]).1 2 = some 'x' ∧
      (snprintf sampleEnv 4 "%.2s%v".toList [.str "abc".toList, .varargs "x%d".toList [.int 5]]).1 3 =
        some '\x00' := by
  have htext : fullText sampleEnv "%.2s%v".toList [.str "abc".toList, .varargs "x%d".toList [.int 5]] =
      "abx5".toList := by
    unfold fullText
    simp only [map_cons, map_nil, Arg.val]
    decide
  have hplain : Plain "%.2s%v".toList [.str "abc".toList, .varargs "x%d".toList [.int 5]] := by
    unfold Plain
    simp only [map_cons, map_nil, Arg.val]
    refine And.intro (fun _ h => nomatch h) (And.intro ?_ trivial)
    intro plain _ h
    obtain rfl := Val.varargs.inj h
    exact ⟨rfl, neg_one_lt_zero, And.intro (fun _ h => nomatch h) trivial⟩
  obtain ⟨hmem, hret⟩ := @snprintf_exact sampleEnv 4 "%.2s%v".toList
    [.str "abc".toList, .varargs "x%d".toList [.int 5]] (by decide) (by decide) hplain (by rw [htext]; decide)
  rw [htext] at hmem hret
  exact ⟨hret, hmem 2, hmem 3⟩

section
variable {env : Env} {fmt : Str}

lemma text_literal (h : ∀ c ∈ fmt, c ≠ '%') (args : List (Val Str)) : text env none args fmt = fmt := by
  induction fmt with
  | nil => rfl
  | cons c fmt ih =>
    obtain ⟨hc, h⟩ := List.forall_mem_cons.mp h
    rw [text, if_neg hc, ih h]

lemma doprintf_literal (h : ∀ c ∈ fmt, c ≠ '%') (args : List (Val (BufData → BufData))) (b : BufData) :
    doprintf env none args fmt b = fmt.foldl addc b := by
  induction fmt generalizing b with
  | nil => rfl
  | cons c fmt ih =>
    obtain ⟨hc, h⟩ := List.forall_mem_cons.mp h
    rw [doprintf, if_neg hc, ih h, foldl_cons]

lemma onlyPlain_literal (h : ∀ c ∈ fmt, c ≠ '%') (args : List (Val Prop)) : OnlyPlain none args fmt := by
  induction fmt with
  | nil => trivial
  | cons c fmt ih =>
    obtain ⟨hc, h⟩ := List.forall_mem_cons.mp h
    rw [OnlyPlain, if_neg hc]
    exact ih h

end

/-- **A text that is longer than an `int` can say**: 2147483648 characters are returned as a negative number. -/
theorem too_long : ∃ format : Str, Plain format [] ∧ (fullText sampleEnv format []).length = 2147483648 ∧
    (snprintf sampleEnv 1 format []).2 = -2147483648 := by
  obtain ⟨format, hlength, h⟩ : ∃ format : Str, format.length = 2147483648 ∧ ∀ c ∈ format, c ≠ '%' := by
    refine ⟨List.replicate 2147483648 'a', List.length_replicate, fun c hc => ?_⟩
    rw [List.eq_of_mem_replicate hc]
    decide
  refine ⟨format, onlyPlain_literal h _, ?_, ?_⟩
  · unfold fullText
    rw [text_literal h, hlength]
  · unfold snprintf
    rw [doprintf_literal h, foldl_addc neg_one_lt_zero]
    simp only [hlength]
    decide

end Nefarious.Snprintf

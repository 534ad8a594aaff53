import Mathlib.Data.List.Induction
import Mathlib.Logic.Function.Basic
import Mathlib.Tactic.Push
import Nefarious.Lib.Lines
import Nefarious.Message

/-!
# The input of a server connection

What is read from a server, or from a connection that may become one, is cut into lines byte by byte.
-/

namespace Nefarious.Packet

open Lib

/-- The ends of lines. `ircd_chattr.h` `IsEol`; `table_gen.c`. -/
def isEol (b : UInt8) : Bool := b = 10 || b = 13

/-- What is called for a line, and what is asked about the connection then. `packet.c`
`server_dopacket`, `connect_dopacket`. -/
structure Parser (σ : Type) where
  /-- `parse_server`; whether the client was killed. -/
  parseServer : σ → List UInt8 → σ × Bool
  /-- `parse_client`; whether the client was killed. -/
  parseClient : σ → List UInt8 → σ × Bool
  isDead : σ → Bool
  isServer : σ → Bool

/-- Which function a read is passed to. `s_bsd.c` `read_packet`. -/
inductive Mode
  /-- `connect_dopacket`. -/
  | connect
  /-- `server_dopacket`. -/
  | server
  | closed
deriving DecidableEq

/-- A connection. `client.h` `struct Connection`. -/
structure Conn (σ : Type) where
  /-- The memory from `con_buffer` on, which has `BUFSIZE` bytes. -/
  buffer : ℕ → UInt8
  /-- `con_count`; while bytes are read, the index of `endp`. -/
  count : ℕ
  /-- Which function reads are passed to. -/
  mode : Mode
  client : σ
  /-- The lines that were handed to the parser, and whether that was `parse_server`. -/
  handed : List (Bool × List UInt8)
  /-- All indices that were written to are below. -/
  top : ℕ

variable {σ : Type}

/-- Write a byte at `endp`. `packet.c` `server_dopacket`. -/
def Conn.put (c : Conn σ) (b : UInt8) : Conn σ :=
  { c with buffer := Function.update c.buffer c.count b, top := max c.top (c.count + 1) }

/-- The bytes before `endp`. `packet.c` `server_dopacket`. -/
def Conn.line (c : Conn σ) : List UInt8 := (List.range c.count).map c.buffer

/-- Data from a server. `packet.c`. -/
def serverDopacket (P : Parser σ) : List UInt8 → Conn σ → Conn σ
  | [], c => c
  | b :: src, c =>
    let c := c.put b
    if isEol b then
      if c.count = 0 then serverDopacket P src c
      else
        let c := c.put 0
        let r := P.parseServer c.client c.line
        let c := { c with client := r.1, handed := c.handed ++ [(true, c.line)] }
        if r.2 ∨ P.isDead r.1 then { c with mode := .closed }
        else serverDopacket P src { c with count := 0 }
    else if c.count < bufSize then serverDopacket P src { c with count := c.count + 1 }
    else serverDopacket P src c

/-- Data from a connection that is not registered. `packet.c`. -/
def connectDopacket (P : Parser σ) : List UInt8 → Conn σ → Conn σ
  | [], c => c
  | b :: src, c =>
    let c := c.put b
    if isEol b then
      if c.count = 0 then connectDopacket P src c
      else
        let c := c.put 0
        let r := P.parseClient c.client c.line
        let c := { c with client := r.1, handed := c.handed ++ [(false, c.line)] }
        if r.2 ∨ P.isDead r.1 then { c with mode := .closed }
        else if P.isServer r.1 then serverDopacket P src { c with count := 0, mode := .server }
        else connectDopacket P src { c with count := 0 }
    else if c.count < bufSize then connectDopacket P src { c with count := c.count + 1 }
    else connectDopacket P src c

/-- One read. `s_bsd.c`. -/
def readPacket (P : Parser σ) (c : Conn σ) (chunk : List UInt8) : Conn σ :=
  match c.mode with
  | .connect => connectDopacket P chunk c
  | .server => serverDopacket P chunk c
  | .closed => c

/-- Reads one after another. `s_bsd.c` `read_packet`. -/
def run (P : Parser σ) (c : Conn σ) (chunks : List (List UInt8)) : Conn σ := chunks.foldl (readPacket P) c

/-! ## Byte by byte -/

lemma readPacket_nil (P : Parser σ) (c : Conn σ) : readPacket P c [] = c := by
  unfold readPacket
  cases c.mode with
  | connect => rfl
  | server => rfl
  | closed => rfl

lemma serverDopacket_cons (P : Parser σ) (b : UInt8) (src : List UInt8) {c : Conn σ} (hc : c.mode = .server) :
    serverDopacket P (b :: src) c = readPacket P (serverDopacket P [b] c) src := by
  simp only [serverDopacket]
  split
  · split
    · simp [readPacket, Conn.put, hc]
    · split
      · rfl
      · simp [readPacket, Conn.put, hc]
  · split
    · simp [readPacket, Conn.put, hc]
    · simp [readPacket, Conn.put, hc]

lemma connectDopacket_cons (P : Parser σ) (b : UInt8) (src : List UInt8) {c : Conn σ}
    (hc : c.mode = .connect) : connectDopacket P (b :: src) c = readPacket P (connectDopacket P [b] c) src := by
  simp only [connectDopacket]
  split
  · split
    · simp [readPacket, Conn.put, hc]
    · split
      · rfl
      · split
        · rfl
        · simp [readPacket, Conn.put, hc]
  · split
    · simp [readPacket, Conn.put, hc]
    · simp [readPacket, Conn.put, hc]

lemma readPacket_eq_foldl (P : Parser σ) (c : Conn σ) (chunk : List UInt8) :
    readPacket P c chunk = chunk.foldl (fun c b => readPacket P c [b]) c := by
  induction chunk generalizing c with
  | nil => exact readPacket_nil P c
  | cons b src ih =>
    rw [List.foldl_cons, ← ih]
    cases hc : c.mode with
    | connect =>
      simp only [readPacket, hc]
      exact connectDopacket_cons P b src hc
    | server =>
      simp only [readPacket, hc]
      exact serverDopacket_cons P b src hc
    | closed => simp only [readPacket, hc]

lemma run_eq_foldl (P : Parser σ) (c : Conn σ) (chunks : List (List UInt8)) :
    run P c chunks = chunks.flatten.foldl (fun c b => readPacket P c [b]) c := by
  unfold run
  rw [List.foldl_flatten]
  congr 1
  funext c chunk
  exact readPacket_eq_foldl P c chunk

/-! ## The lines of the stream -/

/-- What the parser has got. -/
structure Delivered (σ : Type) where
  /-- Which function reads are passed to. -/
  mode : Mode
  client : σ
  /-- The lines, and whether it was `parse_server` that got them. -/
  handed : List (Bool × List UInt8)

def deliver (P : Parser σ) (d : Delivered σ) (l : List UInt8) : Delivered σ :=
  match d.mode with
  | .closed => d
  | .server =>
    let r := P.parseServer d.client l
    { mode := if r.2 ∨ P.isDead r.1 then .closed else .server
      client := r.1
      handed := d.handed ++ [(true, l)] }
  | .connect =>
    let r := P.parseClient d.client l
    { mode := if r.2 ∨ P.isDead r.1 then .closed else if P.isServer r.1 then .server else .connect
      client := r.1
      handed := d.handed ++ [(false, l)] }

/-- What the parser of a connection has got. -/
def Conn.delivered (c : Conn σ) : Delivered σ := ⟨c.mode, c.client, c.handed⟩

/-- The lines of a stream, as far as the buffer has room for them. -/
def cutLines (bs : List UInt8) : List (List UInt8) := (lines isEol bs).map (List.take bufSize)

/-- What holds after a stream: the parser has got its lines, and the buffer has the one that is not
ended. `packet.c` `server_dopacket`. -/
structure Framing (P : Parser σ) (c₀ : Conn σ) (bs : List UInt8) (c : Conn σ) : Prop where
  delivered : c.delivered = (cutLines bs).foldl (deliver P) c₀.delivered
  count : c.mode ≠ .closed → c.count = min (unfinished isEol bs).length bufSize
  line : c.mode ≠ .closed → c.line = (unfinished isEol bs).take bufSize

@[simp] lemma Conn.line_put (c : Conn σ) (b : UInt8) : (c.put b).line = c.line := by
  unfold Conn.line Conn.put
  simp only
  apply List.map_congr_left
  intro i hi
  exact Function.update_of_ne (List.mem_range.mp hi).ne _ _

lemma Conn.line_succ (c : Conn σ) (b : UInt8) :
    { c.put b with count := c.count + 1 }.line = c.line ++ [b] := by
  have h := c.line_put b
  unfold Conn.line at h ⊢
  rw [List.range_succ, List.map_append]
  simp only [Conn.put] at h ⊢
  rw [h]
  simp

variable {b : UInt8} {bs : List UInt8}

lemma readPacket_byte (P : Parser σ) {c : Conn σ} (hc : c.mode ≠ .closed) (hb : isEol b = false) :
    readPacket P c [b] = { c.put b with count := if c.count < bufSize then c.count + 1 else c.count } := by
  have hstep : readPacket P c [b] =
      if (c.put b).count < bufSize then { c.put b with count := (c.put b).count + 1 } else c.put b := by
    cases hm : c.mode with
    | closed => exact absurd hm hc
    | connect => simp only [readPacket, hm, connectDopacket, hb, Bool.false_eq_true, if_false]
    | server => simp only [readPacket, hm, serverDopacket, hb, Bool.false_eq_true, if_false]
  rw [hstep]
  by_cases h : c.count < bufSize
  · rw [if_pos h, if_pos (show (c.put b).count < bufSize from h)]
    rfl
  · rw [if_neg h, if_neg (show ¬ (c.put b).count < bufSize from h)]
    rfl

lemma readPacket_eol_empty (P : Parser σ) {c : Conn σ} (hc : c.mode ≠ .closed)
    (hb : isEol b = true) (h0 : c.count = 0) : readPacket P c [b] = c.put b := by
  cases hm : c.mode with
  | closed => exact absurd hm hc
  | connect => simp [readPacket, hm, connectDopacket, hb, Conn.put, h0]
  | server => simp [readPacket, hm, serverDopacket, hb, Conn.put, h0]

lemma readPacket_eol (P : Parser σ) {c : Conn σ} (hc : c.mode ≠ .closed) (hb : isEol b = true)
    (h0 : c.count ≠ 0) : (readPacket P c [b]).delivered = deliver P c.delivered c.line ∧
    (readPacket P c [b]).top = max c.top (c.count + 1) ∧ ((readPacket P c [b]).mode ≠ .closed →
    (readPacket P c [b]).count = 0) := by
  have hline : ((c.put b).put 0).line = c.line := by rw [Conn.line_put, Conn.line_put]
  have htop : ((c.put b).put 0).top = max c.top (c.count + 1) := by simp [Conn.put]
  have hcount : (c.put b).count ≠ 0 := h0
  cases hm : c.mode with
  | closed => exact absurd hm hc
  | connect =>
    simp only [readPacket, hm, connectDopacket, hb, if_true, if_neg hcount, hline]
    have hclient : ((c.put b).put 0).client = c.client := rfl
    rw [hclient]
    split
    · next h => exact ⟨by simp [Conn.delivered, deliver, hm, h, Conn.put], htop, fun hne => absurd rfl hne⟩
    · next h =>
        split
        · next h' =>
            refine ⟨?_, htop, fun _ => rfl⟩
            simp [Conn.delivered, deliver, hm, h, h', Conn.put, serverDopacket]
        · next h' =>
            exact ⟨by simp [Conn.delivered, deliver, hm, h, h', Conn.put], htop, fun _ => rfl⟩
  | server =>
    simp only [readPacket, hm, serverDopacket, hb, if_true, if_neg hcount, hline]
    have hclient : ((c.put b).put 0).client = c.client := rfl
    rw [hclient]
    split
    · next h => exact ⟨by simp [Conn.delivered, deliver, hm, h, Conn.put], htop, fun hne => absurd rfl hne⟩
    · next h => exact ⟨by simp [Conn.delivered, deliver, hm, h, Conn.put], htop, fun _ => rfl⟩

/-- A connection that has read nothing. `client.h` `struct Connection`. -/
structure Conn.Fresh (c : Conn σ) : Prop where
  mode : c.mode ≠ .closed
  count : c.count = 0
  top : c.top = 0

lemma framing_nil (P : Parser σ) {c : Conn σ} (hc : c.Fresh) : Framing P c [] c where
  delivered := by simp [cutLines]
  count _ := by simp [hc.count]
  line _ := by simp [Conn.line, hc.count]

lemma Framing.byte {P : Parser σ} {c₀ c : Conn σ} (h : Framing P c₀ bs c) (b : UInt8) :
    Framing P c₀ (bs ++ [b]) (readPacket P c [b]) := by
  by_cases hc : c.mode = .closed
  · -- nothing is read any more, and further lines are not delivered
    have hread : readPacket P c [b] = c := by simp only [readPacket, hc]
    rw [hread]
    refine ⟨?_, fun hne => absurd hc hne, fun hne => absurd hc hne⟩
    have hclosed : ∀ ls : List (List UInt8), ls.foldl (deliver P) c.delivered = c.delivered := by
      intro ls
      induction ls with
      | nil => rfl
      | cons l ls ih =>
        have hl : deliver P c.delivered l = c.delivered := by simp [deliver, Conn.delivered, hc]
        rw [List.foldl_cons, hl, ih]
    cases hb : isEol b with
    | false =>
      unfold cutLines
      rw [lines_concat bs hb]
      exact h.delivered
    | true =>
      unfold cutLines
      rw [lines_concat_eol bs hb, List.map_append, List.foldl_append]
      have hd := h.delivered
      unfold cutLines at hd
      rw [← hd, hclosed]
  cases hb : isEol b with
  | false =>
    rw [readPacket_byte P hc hb]
    have hlen : (unfinished isEol (bs ++ [b])).length = (unfinished isEol bs).length + 1 := by
      rw [unfinished_concat bs hb, List.length_append, List.length_singleton]
    refine ⟨?_, fun _ => ?_, fun _ => ?_⟩
    · unfold cutLines
      rw [lines_concat bs hb]
      exact h.delivered
    · simp only [hlen, h.count hc]
      split
      · omega
      · omega
    · rw [unfinished_concat bs hb]
      split
      · next hlt =>
          have hshort : (unfinished isEol bs).length < bufSize := by
            rw [h.count hc] at hlt
            omega
          rw [Conn.line_succ, h.line hc, List.take_of_length_le hshort.le, List.take_of_length_le]
          simp only [List.length_append, List.length_singleton]
          omega
      · next hlt =>
          have hlong : bufSize ≤ (unfinished isEol bs).length := by
            rw [h.count hc] at hlt
            omega
          have hline : { c.put b with count := c.count }.line = c.line := c.line_put b
          rw [hline, h.line hc, List.take_append_of_le_length hlong]
  | true =>
    by_cases h0 : c.count = 0
    · have hempty : unfinished isEol bs = [] := by
        have hmin := h.count hc
        rw [h0] at hmin
        apply List.eq_nil_of_length_eq_zero
        have hpos : 0 < bufSize := by decide
        omega
      rw [readPacket_eol_empty P hc hb h0]
      refine ⟨?_, fun _ => ?_, fun _ => ?_⟩
      · unfold cutLines
        rw [lines_concat_eol bs hb, if_pos hempty, List.append_nil]
        exact h.delivered
      · rw [unfinished_concat_eol bs hb]
        exact h0
      · rw [unfinished_concat_eol bs hb, Conn.line_put]
        simp [Conn.line, h0]
    · have hne : unfinished isEol bs ≠ [] := by
        intro he
        have hmin := h.count hc
        rw [he] at hmin
        exact h0 (by simpa using hmin)
      obtain ⟨hd, -, hcount⟩ := readPacket_eol P hc hb h0
      refine ⟨?_, fun hm => ?_, fun hm => ?_⟩
      · unfold cutLines
        rw [lines_concat_eol bs hb, if_neg hne, List.map_append, List.foldl_append, hd, h.delivered, h.line hc]
        rfl
      · rw [unfinished_concat_eol bs hb, hcount hm]
        rfl
      · rw [unfinished_concat_eol bs hb]
        simp [Conn.line, hcount hm]

def readBytes (P : Parser σ) (c : Conn σ) (bs : List UInt8) : Conn σ :=
  bs.foldl (fun c b => readPacket P c [b]) c

lemma readBytes_concat (P : Parser σ) (c : Conn σ) (bs : List UInt8) (b : UInt8) :
    readBytes P c (bs ++ [b]) = readPacket P (readBytes P c bs) [b] := by
  unfold readBytes
  rw [List.foldl_append]
  rfl

lemma framing_readBytes (P : Parser σ) {c : Conn σ} (hc : c.Fresh) (bs : List UInt8) :
    Framing P c bs (readBytes P c bs) := by
  induction bs using List.reverseRecOn with
  | nil => exact framing_nil P hc
  | append_singleton bs b ih =>
    rw [readBytes_concat]
    exact ih.byte b

lemma run_delivered (P : Parser σ) {c : Conn σ} (hc : c.Fresh) (chunks : List (List UInt8)) :
    (run P c chunks).delivered = (cutLines chunks.flatten).foldl (deliver P) c.delivered := by
  rw [run_eq_foldl]
  exact (framing_readBytes P hc chunks.flatten).delivered

/-! ## The end of the buffer -/

/-- No byte stands behind `BUFSIZE` bytes or more that are not ended. -/
def ShortLines (bs : List UInt8) : Prop :=
  ∀ pre b post, bs = pre ++ b :: post → (unfinished isEol pre).length < bufSize

lemma top_readPacket (P : Parser σ) (c : Conn σ) (b : UInt8) :
    (readPacket P c [b]).top = if c.mode = .closed then c.top else max c.top (c.count + 1) := by
  by_cases hc : c.mode = .closed
  · simp only [readPacket, hc, if_true]
  rw [if_neg hc]
  cases hb : isEol b with
  | false =>
    rw [readPacket_byte P hc hb]
    rfl
  | true =>
    by_cases h0 : c.count = 0
    · rw [readPacket_eol_empty P hc hb h0]
      rfl
    · exact (readPacket_eol P hc hb h0).2.1

lemma top_le_of_short (P : Parser σ) {c : Conn σ} (hc : c.Fresh) (h : ShortLines bs) :
    (readBytes P c bs).top ≤ bufSize := by
  induction bs using List.reverseRecOn with
  | nil =>
    rw [show readBytes P c [] = c from rfl, hc.top]
    exact Nat.zero_le _
  | append_singleton bs b ih =>
    have hpre : ShortLines bs := fun pre b' post he => h pre b' (post ++ [b]) (by rw [he]; simp)
    have hlast : (unfinished isEol bs).length < bufSize := h bs b [] rfl
    rw [readBytes_concat, top_readPacket]
    split
    · exact ih hpre
    · next hm =>
        have hcount := (framing_readBytes P hc bs).count hm
        have htop := ih hpre
        omega

lemma top_le_readBytes (P : Parser σ) (c : Conn σ) (bs : List UInt8) : c.top ≤ (readBytes P c bs).top := by
  induction bs using List.reverseRecOn with
  | nil => exact le_refl _
  | append_singleton bs b ih =>
    rw [readBytes_concat, top_readPacket]
    split
    · exact ih
    · exact ih.trans (le_max_left _ _)

/-- A parser that takes every line. -/
def quietParser : Parser Unit where
  parseServer _ _ := ((), false)
  parseClient _ _ := ((), false)
  isDead _ := false
  isServer _ := false

/-- A server that has sent nothing. -/
def newServer : Conn Unit where
  buffer _ := 0
  count := 0
  mode := .server
  client := ()
  handed := []
  top := 0

lemma newServer_fresh : newServer.Fresh := ⟨by decide, rfl, rfl⟩

lemma readBytes_newServer_mode (bs : List UInt8) : (readBytes quietParser newServer bs).mode = .server := by
  have hd := congrArg Delivered.mode (framing_readBytes quietParser newServer_fresh bs).delivered
  have hmode : ∀ (ls : List (List UInt8)) (d : Delivered Unit), d.mode = .server →
      (ls.foldl (deliver quietParser) d).mode = .server := by
    intro ls
    induction ls with
    | nil => exact fun d hd => hd
    | cons l ls ih =>
      intro d hd
      exact ih _ (by simp [deliver, hd, quietParser])
  exact hd.trans (hmode _ _ rfl)

lemma lt_top_of_not_short (h : ¬ ShortLines bs) : bufSize < (readBytes quietParser newServer bs).top := by
  unfold ShortLines at h
  push Not at h
  obtain ⟨pre, b, post, rfl, hlen⟩ := h
  have hopen : (readBytes quietParser newServer pre).mode ≠ .closed := by
    rw [readBytes_newServer_mode]
    decide
  have hcount := (framing_readBytes quietParser newServer_fresh pre).count hopen
  have hbyte : bufSize < (readBytes quietParser newServer (pre ++ [b])).top := by
    rw [readBytes_concat, top_readPacket, if_neg hopen]
    omega
  have hsplit : readBytes quietParser newServer (pre ++ b :: post) =
      readBytes quietParser (readBytes quietParser newServer (pre ++ [b])) post := by
    unfold readBytes
    rw [← List.foldl_append]
    simp
  rw [hsplit]
  exact hbyte.trans_le (top_le_readBytes _ _ _)

/-- The framing of a stream: the lines that the parser gets are the same for any two ways of cutting it
into reads, they are those of the stream, each one once and in order, and no index of the buffer is
written to that is not below `BUFSIZE`. -/
structure Framed (P : Parser σ) (c : Conn σ) (bs : List UInt8) : Prop where
  same : ∀ chunks chunks', chunks.flatten = bs → chunks'.flatten = bs →
    (run P c chunks).handed = (run P c chunks').handed
  delivered : ∀ chunks, chunks.flatten = bs →
    (run P c chunks).delivered = (cutLines bs).foldl (deliver P) c.delivered
  within : ∀ chunks, chunks.flatten = bs → (run P c chunks).top ≤ bufSize

/-- **When the input of a server connection is framed.** For every stream: it is framed for all parsers and
connections exactly if no byte of it stands behind `BUFSIZE` bytes or more that are not ended. -/
theorem framing_iff (bs : List UInt8) :
    (∀ (σ : Type) (P : Parser σ) (c : Conn σ), c.Fresh → Framed P c bs) ↔ ShortLines bs := by
  constructor
  · intro h
    by_contra hlong
    have hframed := h Unit quietParser newServer newServer_fresh
    have hle := hframed.within [bs] (by simp)
    rw [run_eq_foldl, show [bs].flatten = bs by simp] at hle
    exact absurd hle (not_le.mpr (lt_top_of_not_short hlong))
  · intro hshort σ P c hc
    refine ⟨fun chunks chunks' h h' => ?_, fun chunks h => ?_, fun chunks h => ?_⟩
    · rw [run_eq_foldl, run_eq_foldl, h, h']
    · rw [run_delivered P hc, h]
    · rw [run_eq_foldl, h]
      exact top_le_of_short P hc hshort

/-- **A line of 513 bytes passes the end of the buffer**, which has 512. -/
theorem overlong_passes_end : (run quietParser newServer [List.replicate 512 97, [97]]).top = bufSize + 1 ∧
      ¬ ∀ (σ : Type) (P : Parser σ) (c : Conn σ), c.Fresh → Framed P c (List.replicate 513 97) := by
  have htop : (run quietParser newServer [List.replicate 512 97, [97]]).top = bufSize + 1 := by
    decide +kernel
  refine ⟨htop, fun h => ?_⟩
  have hle := (h Unit quietParser newServer newServer_fresh).within [List.replicate 512 97, [97]]
    (by decide +kernel)
  rw [htop] at hle
  exact absurd hle (by decide)

end Nefarious.Packet

import Mathlib.Tactic.Push
import Nefarious.Input.Packet

/-!
# The input of a client connection

What a client sends is kept in a list of blocks until it is its turn, and is taken out line by line then.

Names: `dbuf.c`.
-/

namespace Nefarious.Dbuf

open List (append_assoc flatten_cons length_append length_drop map_cons mem_cons mem_cons_of_mem
  takeWhile_prefix take_append)

open Lib Packet

/-! ### The operations -/

def dbufSize : ℕ := 2048

/-- A block. `struct DBufBuffer`. -/
structure DBufBuffer where
  /-- Where in the block the data starts: `start - data`. -/
  start : ℕ
  /-- The bytes from `start` to `end`. -/
  bytes : List UInt8
deriving DecidableEq

/-- The bytes that are free behind `end`. `dbuf_put`. -/
def DBufBuffer.room (b : DBufBuffer) : ℕ := dbufSize - (b.start + b.bytes.length)

/-- Write behind `end`. `dbuf_put`. -/
def DBufBuffer.append (b : DBufBuffer) (data : List UInt8) : DBufBuffer :=
  { b with bytes := b.bytes ++ data }

/-- Move `start` on. `dbuf_delete`, `dbuf_flush`. -/
def DBufBuffer.skip (b : DBufBuffer) (k : ℕ) : DBufBuffer :=
  { start := b.start + k, bytes := b.bytes.drop k }

/-- A queue. The tail is the last of the blocks. `dbuf.h` `struct DBuf`. -/
structure DBuf where
  length : ℕ
  /-- The blocks from `head` on. -/
  blocks : List DBufBuffer
deriving DecidableEq

def DBuf.stored (d : DBuf) : List UInt8 := (d.blocks.map DBufBuffer.bytes).flatten

/-- Put data in new blocks, of which the pool has `pool`. `dbuf_put`, `dbuf_alloc`. -/
def allocBlocks : ℕ → List UInt8 → Option (List DBufBuffer)
  | _, [] => some []
  | 0, _ :: _ => none
  | pool + 1, b :: data =>
    (allocBlocks pool ((b :: data).drop dbufSize)).map (⟨0, (b :: data).take dbufSize⟩ :: ·)

/-- Put data in the blocks from `h` on, and then in new ones. `dbuf_put`. -/
def fillBlocks (pool : ℕ) : List DBufBuffer → List UInt8 → Option (List DBufBuffer)
  | blocks, [] => some blocks
  | [], b :: data => allocBlocks pool (b :: data)
  | db :: blocks, b :: data =>
    (fillBlocks pool blocks ((b :: data).drop db.room)).map (db.append ((b :: data).take db.room) :: ·)

/-- Append bytes, if the pool has `pool` blocks left; whether that succeeded. `dbuf_put`, `dbuf_malloc_error`.
-/
def dbufPut (pool : ℕ) (d : DBuf) (data : List UInt8) : DBuf × Bool :=
  -- The loop starts at the head if nothing is stored, and else at the tail.
  let before := if d.length = 0 then [] else d.blocks.dropLast
  let h := d.blocks.drop before.length
  match fillBlocks pool h data with
  | some blocks => (⟨d.length + data.length, before ++ blocks⟩, true)
  | none => (⟨0, []⟩, false)

/-- Drop `len` bytes from the blocks, and count `length` down. `dbuf_delete`. -/
def deleteBlocks : List DBufBuffer → ℕ → ℕ → DBuf
  | blocks, 0, length => ⟨length, blocks⟩
  | [], _ + 1, length => ⟨length, []⟩
  | db :: blocks, len + 1, length =>
    let chunk := min db.bytes.length (len + 1)
    -- A block that is not used up takes all that is left to drop.
    if chunk = db.bytes.length then deleteBlocks blocks (len + 1 - chunk) (length - chunk)
    else ⟨length - chunk, db.skip chunk :: blocks⟩

def dbufDelete (d : DBuf) (len : ℕ) : DBuf :=
  let d' := deleteBlocks d.blocks (min len d.length) d.length
  if d'.blocks = [] then ⟨0, []⟩ else d'

/-- Drop ends of lines from the blocks, and count `length` down. `dbuf_flush`. -/
def flushBlocks : List DBufBuffer → ℕ → DBuf
  | [], _ => ⟨0, []⟩
  | db :: blocks, length =>
    let k := (db.bytes.takeWhile isEol).length
    if k = db.bytes.length then flushBlocks blocks (length - k)
    else ⟨length - k, db.skip k :: blocks⟩

def dbufFlush (d : DBuf) : DBuf :=
  if d.blocks = [] then d else flushBlocks d.blocks d.length

/-- Copy bytes up to the end of the line, at most `length` of them; none if the end is not among these. `dbuf_getmsg`. -/
def copyLine : List DBufBuffer → ℕ → List UInt8 → Option (List UInt8)
  | [], _, _ => none
  | db :: blocks, length, buf =>
    if length = 0 then none
    else
      let window := db.bytes.take length
      let copied := window.takeWhile (!isEol ·)
      if copied.length < window.length then some (buf ++ copied)
      else copyLine blocks (length - copied.length) (buf ++ copied)

/-- Copy a single line, and remove it; what is copied is empty if 0 is returned. -/
def dbufGetmsg (d : DBuf) (length : ℕ) : DBuf × List UInt8 :=
  let d := dbufFlush d
  if d.length = 0 then (d, [])
  else
    match copyLine d.blocks (min length d.length) [] with
    | none => (d, [])
    | some buf => (dbufFlush (dbufDelete d buf.length), buf)

/-! ### What is stored -/

/-- A block that is not empty and not longer than its memory. `dbuf_flush` ("assert(db->start < db->end)"),
`dbuf_put`. -/
structure DBufBuffer.WF (b : DBufBuffer) : Prop where
  nonempty : b.bytes ≠ []
  fits : b.start + b.bytes.length ≤ dbufSize

/-- The blocks are in order, and the length is right. `dbuf_put` ("assumes that the 'dyn->length' field is
correctly maintained"). -/
structure DBuf.WF (d : DBuf) : Prop where
  blocks : ∀ b ∈ d.blocks, b.WF
  length_eq : d.length = d.stored.length

@[simp] lemma stored_mk (n : ℕ) (blocks : List DBufBuffer) :
    DBuf.stored ⟨n, blocks⟩ = (blocks.map DBufBuffer.bytes).flatten := rfl

lemma wf_empty : DBuf.WF ⟨0, []⟩ := ⟨by simp, by simp⟩

variable {data : List UInt8} {pool : ℕ}

lemma DBufBuffer.WF.append {b : DBufBuffer} (hb : b.WF)
    (hdata : data.length ≤ b.room) : (b.append data).WF := by
  have hfits := hb.fits
  refine ⟨?_, ?_⟩
  · simp [DBufBuffer.append, hb.nonempty]
  · unfold DBufBuffer.room at hdata
    simp only [DBufBuffer.append, length_append]
    omega

lemma DBufBuffer.WF.skip {b : DBufBuffer} (hb : b.WF) {k : ℕ} (hk : k < b.bytes.length) : (b.skip k).WF := by
  have hfits := hb.fits
  refine ⟨?_, ?_⟩
  · simpa [DBufBuffer.skip] using hk
  · simp only [DBufBuffer.skip, length_drop]
    omega

lemma DBuf.WF.blocks_eq_nil {d : DBuf} (hd : d.WF) (h : d.length = 0) : d.blocks = [] := by
  rw [hd.length_eq, List.length_eq_zero_iff] at h
  by_contra hne
  obtain ⟨b, bs, hbs⟩ := List.exists_cons_of_ne_nil hne
  have hb := (hd.blocks b (by simp [hbs])).nonempty
  simp [DBuf.stored, hbs, hb] at h

/-! ### Adding bytes -/

lemma allocBlocks_spec {blocks : List DBufBuffer} (h : allocBlocks pool data = some blocks) :
    (blocks.map DBufBuffer.bytes).flatten = data ∧ ∀ b ∈ blocks, b.WF := by
  fun_induction allocBlocks pool data generalizing blocks with
  | case1 => simp_all
  | case2 => cases h
  | case3 pool b data ih =>
    obtain ⟨rest, hrest, rfl⟩ := Option.map_eq_some_iff.mp h
    obtain ⟨hbytes, hwf⟩ := ih hrest
    refine ⟨?_, ?_⟩
    · rw [map_cons, flatten_cons, hbytes, List.take_append_drop]
    · intro x hx
      obtain rfl | hx := mem_cons.mp hx
      · refine ⟨by simp [dbufSize], ?_⟩
        simp only [Nat.zero_add, List.length_take]
        exact Nat.min_le_left _ _
      · exact hwf x hx

lemma fillBlocks_singleton {db : DBufBuffer}
    {blocks : List DBufBuffer} (hdb : db.WF) (h : fillBlocks pool [db] data = some blocks) :
    (blocks.map DBufBuffer.bytes).flatten = db.bytes ++ data ∧ ∀ b ∈ blocks, b.WF := by
  cases data with
  | nil =>
    obtain rfl : [db] = blocks := by simpa [fillBlocks] using h
    simpa using hdb
  | cons b data =>
    obtain ⟨rest, hrest, rfl⟩ := Option.map_eq_some_iff.mp h
    have hroom : ((b :: data).take db.room).length ≤ db.room := List.length_take_le _ _
    have hrest' : (rest.map DBufBuffer.bytes).flatten = (b :: data).drop db.room ∧ ∀ b ∈ rest, b.WF := by
      cases hdrop : (b :: data).drop db.room with
      | nil =>
        rw [hdrop, fillBlocks] at hrest
        cases hrest
        simp
      | cons c cs =>
        rw [hdrop, fillBlocks] at hrest
        exact allocBlocks_spec hrest
    refine ⟨?_, ?_⟩
    · rw [map_cons, flatten_cons, hrest'.1]
      simp [DBufBuffer.append, List.take_append_drop]
    · intro x hx
      obtain rfl | hx := mem_cons.mp hx
      · exact hdb.append hroom
      · exact hrest'.2 x hx

lemma fillBlocks_nil {blocks : List DBufBuffer} (h : fillBlocks pool [] data = some blocks) :
    (blocks.map DBufBuffer.bytes).flatten = data ∧ ∀ b ∈ blocks, b.WF := by
  cases data with
  | nil => simp_all [fillBlocks]
  | cons b data => exact allocBlocks_spec h

lemma wf_behind {d : DBuf} {before h blocks : List DBufBuffer} (hd : d.WF) (hsplit : d.blocks = before ++ h)
    (hbytes : (blocks.map DBufBuffer.bytes).flatten = (h.map DBufBuffer.bytes).flatten ++ data)
    (hwf : ∀ b ∈ blocks, b.WF) : DBuf.WF ⟨d.length + data.length, before ++ blocks⟩ ∧
    DBuf.stored ⟨d.length + data.length, before ++ blocks⟩ = d.stored ++ data := by
  have hstored : DBuf.stored ⟨d.length + data.length, before ++ blocks⟩ = d.stored ++ data := by
    rw [stored_mk, List.map_append, List.flatten_append, hbytes, ← append_assoc, DBuf.stored,
      hsplit, List.map_append, List.flatten_append]
  refine ⟨⟨?_, ?_⟩, hstored⟩
  · intro b hb
    obtain hb | hb := List.mem_append.mp hb
    · exact hd.blocks b (by simp [hsplit, hb])
    · exact hwf b hb
  · rw [hstored, length_append, ← hd.length_eq]

lemma dbufPut_stored {d : DBuf} (hd : d.WF) (h : (dbufPut pool d data).2 = true) :
    (dbufPut pool d data).1.WF ∧ (dbufPut pool d data).1.stored = d.stored ++ data := by
  unfold dbufPut at h ⊢
  by_cases hlen : d.length = 0
  · have hnil := hd.blocks_eq_nil hlen
    simp only [hlen, if_true, hnil, List.drop_nil] at h ⊢
    cases hf : fillBlocks pool [] data with
    | none => simp [hf] at h
    | some blocks =>
      obtain ⟨hbytes, hwf⟩ := fillBlocks_nil hf
      have hsplit : d.blocks = [] ++ [] := hnil
      have := wf_behind hd hsplit (by simpa using hbytes) hwf
      simpa [hlen] using this
  · have hne : d.blocks ≠ [] := by
      intro hnil
      apply hlen
      rw [hd.length_eq, DBuf.stored, hnil]
      rfl
    obtain ⟨before, db, hblocks⟩ : ∃ before db, d.blocks = before ++ [db] :=
      ⟨_, _, (List.dropLast_append_getLast hne).symm⟩
    have hbefore : d.blocks.dropLast = before := by simp [hblocks]
    have hdrop : d.blocks.drop before.length = [db] := by simp [hblocks]
    simp only [hlen, if_false, hbefore, hdrop] at h ⊢
    cases hf : fillBlocks pool [db] data with
    | none => simp [hf] at h
    | some blocks =>
      obtain ⟨hbytes, hwf⟩ := fillBlocks_singleton (hd.blocks db (by simp [hblocks])) hf
      exact wf_behind hd hblocks (by simpa using hbytes) hwf

lemma dbufPut_failed {d : DBuf} (h : (dbufPut pool d data).2 = false) :
    (dbufPut pool d data).1 = ⟨0, []⟩ := by
  unfold dbufPut at h ⊢
  simp only at h ⊢
  split at h
  · cases h
  · rfl

/-! ### Dropping bytes -/

lemma deleteBlocks_spec (blocks : List DBufBuffer) (len n : ℕ) (hwf : ∀ b ∈ blocks, b.WF)
    (hn : n = (blocks.map DBufBuffer.bytes).flatten.length) : (deleteBlocks blocks len n).WF ∧
    (deleteBlocks blocks len n).stored = (blocks.map DBufBuffer.bytes).flatten.drop len := by
  fun_induction deleteBlocks blocks len n with
  | case1 blocks n => exact ⟨⟨hwf, hn⟩, rfl⟩
  | case2 => simp_all [wf_empty]
  | case3 db blocks len n chunk hchunk ih =>
    rw [map_cons, flatten_cons, length_append] at hn
    obtain ⟨hd, hstored⟩ := ih (fun b hb => hwf b (mem_cons_of_mem _ hb)) (by omega)
    refine ⟨hd, hstored.trans ?_⟩
    rw [map_cons, flatten_cons, List.drop_append, hchunk]
    have hle : db.bytes.length ≤ len + 1 := by omega
    rw [List.drop_eq_nil_of_le hle, List.nil_append]
  | case4 db blocks len n chunk hchunk =>
    have hlt : len + 1 < db.bytes.length := by omega
    have hchunk : chunk = len + 1 := by omega
    have hstored : DBuf.stored ⟨n - chunk, db.skip chunk :: blocks⟩ =
        (((db :: blocks).map DBufBuffer.bytes).flatten).drop (len + 1) := by
      rw [stored_mk, map_cons, flatten_cons, map_cons, flatten_cons,
        List.drop_append_of_le_length hlt.le, hchunk]
      rfl
    refine ⟨⟨?_, ?_⟩, hstored⟩
    · intro b hb
      obtain rfl | hb := mem_cons.mp hb
      · exact (hwf db (by simp)).skip (by omega)
      · exact hwf b (mem_cons_of_mem _ hb)
    · rw [hstored, length_drop, hn, hchunk]

lemma dbufDelete_stored {d : DBuf} (hd : d.WF) (len : ℕ) :
    (dbufDelete d len).WF ∧ (dbufDelete d len).stored = d.stored.drop len := by
  obtain ⟨hwf, hstored⟩ := deleteBlocks_spec d.blocks (min len d.length) d.length hd.blocks hd.length_eq
  have hmin : (d.blocks.map DBufBuffer.bytes).flatten.drop (min len d.length) = d.stored.drop len := by
    rw [hd.length_eq, DBuf.stored]
    exact (List.drop_eq_drop_min ..).symm
  rw [hmin] at hstored
  unfold dbufDelete
  simp only
  split
  · next hnil =>
    refine ⟨wf_empty, ?_⟩
    rw [← hstored]
    simp [DBuf.stored, hnil]
  · exact ⟨hwf, hstored⟩

lemma flushBlocks_spec (blocks : List DBufBuffer) (n : ℕ) (hwf : ∀ b ∈ blocks, b.WF)
    (hn : n = (blocks.map DBufBuffer.bytes).flatten.length) : (flushBlocks blocks n).WF ∧
    (flushBlocks blocks n).stored = (blocks.map DBufBuffer.bytes).flatten.dropWhile isEol := by
  fun_induction flushBlocks blocks n with
  | case1 => simp [wf_empty]
  | case2 db blocks n k hk ih =>
    rw [map_cons, flatten_cons, length_append] at hn
    obtain ⟨hd, hstored⟩ := ih (fun b hb => hwf b (mem_cons_of_mem _ hb)) (by omega)
    have hall : db.bytes.takeWhile isEol = db.bytes := ( takeWhile_prefix _).eq_of_length hk
    refine ⟨hd, hstored.trans ?_⟩
    rw [map_cons, flatten_cons, List.dropWhile_append_of_pos (List.takeWhile_eq_self_iff.mp hall)]
  | case3 db blocks n k hk =>
    have hle : k ≤ db.bytes.length := ( takeWhile_prefix _).length_le
    have hdrop : db.bytes.dropWhile isEol = db.bytes.drop k := by
      conv_rhs => rw [← @List.takeWhile_append_dropWhile _ isEol db.bytes]
      rw [List.drop_left]
    have hstored : DBuf.stored ⟨n - k, db.skip k :: blocks⟩ =
        (((db :: blocks).map DBufBuffer.bytes).flatten).dropWhile isEol := by
      have hne : (db.bytes.dropWhile isEol).isEmpty = false := by
        rw [hdrop, List.isEmpty_eq_false_iff, ne_eq, List.drop_eq_nil_iff]
        omega
      rw [stored_mk, map_cons, flatten_cons, map_cons, flatten_cons, List.dropWhile_append, hne, hdrop]
      rfl
    refine ⟨⟨?_, ?_⟩, hstored⟩
    · intro b hb
      obtain rfl | hb := mem_cons.mp hb
      · exact (hwf db (by simp)).skip (by omega)
      · exact hwf b (mem_cons_of_mem _ hb)
    · rw [stored_mk, map_cons, flatten_cons, length_append, hn, map_cons, flatten_cons, length_append]
      simp only [DBufBuffer.skip, length_drop]
      omega

lemma dbufFlush_stored {d : DBuf} (hd : d.WF) :
    (dbufFlush d).WF ∧ (dbufFlush d).stored = d.stored.dropWhile isEol := by
  unfold dbufFlush
  split
  · next hnil => exact ⟨hd, by simp [DBuf.stored, hnil]⟩
  · exact flushBlocks_spec d.blocks d.length hd.blocks hd.length_eq

/-! ### Taking a line -/

lemma copyLine_eq (blocks : List DBufBuffer) (length : ℕ) (buf : List UInt8) : copyLine blocks length buf =
      let window := (blocks.map DBufBuffer.bytes).flatten.take length
      let copied := window.takeWhile (!isEol ·)
      if copied.length < window.length then some (buf ++ copied) else none := by
  fun_induction copyLine blocks length buf with
  | case1 => simp
  | case2 => simp
  | case3 db blocks length buf hlength window copied hlt =>
    have hsplit : ((db :: blocks).map DBufBuffer.bytes).flatten.take length =
        window ++ (blocks.map DBufBuffer.bytes).flatten.take (length - db.bytes.length) := by
      rw [map_cons, flatten_cons, take_append]
    have hcopied : (((db :: blocks).map DBufBuffer.bytes).flatten.take length).takeWhile (!isEol ·) =
        copied := by
      rw [hsplit, List.takeWhile_append, if_neg (Nat.ne_of_lt hlt)]
    simp only [hcopied]
    rw [if_pos]
    rw [hsplit, length_append]
    omega
  | case4 db blocks length buf hlength window copied hlt ih =>
    have hprefix : copied <+: window := takeWhile_prefix _
    have hcopied : copied = window := hprefix.eq_of_length_le (Nat.not_lt.mp hlt)
    have hlen : length - copied.length = length - db.bytes.length := by
      rw [hcopied, List.length_take]
      omega
    have hsplit : ((db :: blocks).map DBufBuffer.bytes).flatten.take length =
        window ++ (blocks.map DBufBuffer.bytes).flatten.take (length - db.bytes.length) := by
      rw [map_cons, flatten_cons, take_append]
    rw [ih, hlen, hsplit]
    have hsame : copied.length = window.length := congrArg List.length hcopied
    simp only [List.takeWhile_append, show (window.takeWhile (!isEol ·)).length = window.length from hsame,
      if_true, length_append, Nat.add_lt_add_iff_left, hcopied, append_assoc]

lemma exists_eol_of_takeWhile_lt {bs : List UInt8}
    (h : (bs.takeWhile (!isEol ·)).length < bs.length) : ∃ b ∈ bs, isEol b = true := by
  by_contra hno
  push Not at hno
  have hall : bs.takeWhile (!isEol ·) = bs := List.takeWhile_eq_self_iff.mpr fun b hb => by simp [hno b hb]
  rw [hall] at h
  exact Nat.lt_irrefl _ h

lemma dbufGetmsg_cases {d : DBuf} (hd : d.WF) (length : ℕ) : (dbufGetmsg d length).1.WF ∧
      (((dbufGetmsg d length).2 = [] ∧ (dbufGetmsg d length).1.stored = d.stored.dropWhile isEol ∧
          ∀ b ∈ (d.stored.dropWhile isEol).take length, isEol b = false) ∨
        ∃ e rest, d.stored.dropWhile isEol = (dbufGetmsg d length).2 ++ e :: rest ∧
          (dbufGetmsg d length).2 ≠ [] ∧ (∀ b ∈ (dbufGetmsg d length).2, isEol b = false) ∧
          isEol e = true ∧ (dbufGetmsg d length).1.stored = rest.dropWhile isEol) := by
  obtain ⟨hwf, hstored⟩ := dbufFlush_stored hd
  unfold dbufGetmsg
  simp only
  by_cases hlen : (dbufFlush d).length = 0
  · rw [if_pos hlen]
    rw [hwf.length_eq, List.length_eq_zero_iff, hstored] at hlen
    exact ⟨hwf, .inl ⟨rfl, hstored, by simp [hlen]⟩⟩
  · rw [if_neg hlen, copyLine_eq]
    -- The window, which ends with the queue or before it.
    have hwindow : ((dbufFlush d).blocks.map DBufBuffer.bytes).flatten.take
        (min length (dbufFlush d).length) = (d.stored.dropWhile isEol).take length := by
      rw [hwf.length_eq, ← hstored]
      exact (List.take_eq_take_min ..).symm
    simp only [hwindow, List.nil_append]
    have hnot : ∀ b ∈ ((d.stored.dropWhile isEol).take length).takeWhile (!isEol ·), isEol b = false :=
      fun b hb => by simpa using List.mem_takeWhile_imp hb
    by_cases hlt : (((d.stored.dropWhile isEol).take length).takeWhile (!isEol ·)).length <
        ((d.stored.dropWhile isEol).take length).length
    · simp only [if_pos hlt]
      obtain ⟨e, rest, hsplit, he⟩ := exists_first_eol (exists_eol_of_takeWhile_lt hlt)
      have hs : d.stored.dropWhile isEol = ((d.stored.dropWhile isEol).take length).takeWhile (!isEol ·) ++
          e :: (rest ++ (d.stored.dropWhile isEol).drop length) := by
        conv_lhs => rw [← List.take_append_drop length (d.stored.dropWhile isEol), hsplit]
        simp
      clear hlt hsplit
      generalize ((d.stored.dropWhile isEol).take length).takeWhile (!isEol ·) = line at hs hnot ⊢
      generalize rest ++ (d.stored.dropWhile isEol).drop length = rest at hs
      obtain ⟨hdwf, hdstored⟩ := dbufDelete_stored hwf line.length
      obtain ⟨hfwf, hfstored⟩ := dbufFlush_stored hdwf
      refine ⟨hfwf, .inr ⟨e, _, hs, ?_, hnot, he, ?_⟩⟩
      · rintro rfl
        have hhead := List.head?_dropWhile_not isEol d.stored
        rw [hs] at hhead
        simp [he] at hhead
      · rw [hfstored, hdstored, hstored, hs, List.drop_left, List.dropWhile_cons_of_pos he]
    · rw [if_neg hlt]
      refine ⟨hwf, .inl ⟨rfl, hstored, fun b hb => ?_⟩⟩
      have hall : ((d.stored.dropWhile isEol).take length).takeWhile (!isEol ·) =
          (d.stored.dropWhile isEol).take length :=
        ( takeWhile_prefix _).eq_of_length_le (Nat.not_lt.mp hlt)
      rw [← hall] at hb
      exact hnot b hb

lemma dbufGetmsg_zero {d : DBuf} (hd : d.WF) {length : ℕ} (h : (dbufGetmsg d length).2 = [])
    (hshort : ∀ l ∈ lines isEol d.stored, l.length < length) : lines isEol d.stored = [] := by
  obtain ⟨-, ⟨-, -, hwindow⟩ | ⟨_, _, _, hne, _⟩⟩ := dbufGetmsg_cases hd length
  · rw [← lines_dropWhile]
    apply lines_eq_nil
    by_contra hno
    push Not at hno
    have hno : ∃ b ∈ d.stored.dropWhile isEol, isEol b = true := by simpa using hno
    -- The first end of a line stands behind the window, so the line before it is too long.
    obtain ⟨e, rest, hs, he⟩ := exists_first_eol hno
    have hnot : ∀ b ∈ (d.stored.dropWhile isEol).takeWhile (!isEol ·), isEol b = false :=
      fun b hb => by simpa using List.mem_takeWhile_imp hb
    generalize (d.stored.dropWhile isEol).takeWhile (!isEol ·) = line at hs hnot
    have hline : line ≠ [] := by
      rintro rfl
      have hhead := List.head?_dropWhile_not isEol d.stored
      rw [hs] at hhead
      simp [he] at hhead
    have hlt : line.length < length := by
      apply hshort
      rw [← lines_dropWhile, hs, lines_append_cons hnot hline he]
      exact List.mem_cons_self
    have hmem : e ∈ (d.stored.dropWhile isEol).take length := by
      rw [hs, take_append, List.mem_append]
      right
      obtain ⟨k, hk⟩ : ∃ k, length - line.length = k + 1 := ⟨length - line.length - 1, by omega⟩
      rw [hk]
      exact List.mem_cons_self
    rw [hwindow e hmem] at he
    cases he
  · exact absurd h hne

/-- What is done with a queue. `s_bsd.c` `read_packet`. -/
inductive Op
  /-- `dbuf_put`, while the pool has `pool` blocks. -/
  | put (pool : ℕ) (data : List UInt8)
  | getmsg (length : ℕ)

/-- A queue, what was put in it since it was empty for lack of memory, and what was taken out. Source:
none: abstract model. -/
structure Run where
  dyn : DBuf
  /-- The bytes of all chunks that were put. -/
  input : List UInt8
  returned : List (List UInt8)
deriving DecidableEq

def Run.init : Run := ⟨⟨0, []⟩, [], []⟩

/-- One operation. When there is no memory for a chunk, the queue is emptied and the connection is closed;
another one starts anew. `s_bsd.c` `read_packet`. -/
def Run.step (r : Run) : Op → Run
  | .put pool data =>
    let (d, ok) := dbufPut pool r.dyn data
    if ok then { r with dyn := d, input := r.input ++ data } else ⟨d, [], []⟩
  | .getmsg length =>
    let (d, buf) := dbufGetmsg r.dyn length
    if buf = [] then { r with dyn := d } else { r with dyn := d, returned := r.returned ++ [buf] }

def run (ops : List Op) : Run := ops.foldl Run.step Run.init

/-- What holds between the operations. -/
structure Run.Inv (r : Run) : Prop where
  wf : r.dyn.WF
  lines_eq : lines isEol r.input = r.returned ++ lines isEol r.dyn.stored
  unfinished_eq : unfinished isEol r.dyn.stored = unfinished isEol r.input

lemma Run.Inv.step {r : Run} (hr : r.Inv) (op : Op) : (r.step op).Inv := by
  cases op with
  | put pool data =>
    unfold Run.step
    cases hok : (dbufPut pool r.dyn data).2 with
    | true =>
      obtain ⟨hwf, hstored⟩ := dbufPut_stored hr.wf hok
      simp only [hok, if_true]
      refine ⟨hwf, ?_, ?_⟩
      · rw [lines_append, hr.lines_eq, hstored, lines_append r.dyn.stored, hr.unfinished_eq, append_assoc]
      · rw [hstored, unfinished_append, hr.unfinished_eq, ← unfinished_append]
    | false =>
      simp only [hok, dbufPut_failed hok]
      exact ⟨wf_empty, rfl, rfl⟩
  | getmsg length =>
    unfold Run.step
    obtain ⟨hwf, ⟨hnil, hstored, -⟩ | ⟨e, rest, hs, hne, hnot, he, hstored⟩⟩ := dbufGetmsg_cases hr.wf length
    · simp only [hnil, if_true]
      refine ⟨hwf, ?_, ?_⟩
      · rw [hr.lines_eq, hstored, lines_dropWhile]
      · rw [hstored, unfinished_dropWhile, hr.unfinished_eq]
    · simp only [if_neg hne]
      refine ⟨hwf, ?_, ?_⟩
      · rw [hr.lines_eq, hstored, ← lines_dropWhile r.dyn.stored, hs, lines_append_cons hnot hne he,
          lines_dropWhile, append_assoc, List.singleton_append]
      · rw [hstored, unfinished_dropWhile, ← unfinished_append_cons _ he, ← hs, unfinished_dropWhile,
          hr.unfinished_eq]

lemma inv_run (ops : List Op) : (run ops).Inv := by
  suffices h : ∀ r : Run, r.Inv → (ops.foldl Run.step r).Inv from h _ ⟨wf_empty, rfl, rfl⟩
  induction ops with
  | nil => exact fun r hr => hr
  | cons op ops ih => exact fun r hr => ih _ (hr.step op)

/-- **The queue is a queue of bytes that are taken out line by line.** After any operations the length is the
number of bytes stored, and the messages returned so far, followed by the lines that are stored, are the lines
of what was put, however that was cut into chunks. If these are shorter than `length`, the next message is the
next line, and when there is none, only ends of lines at the beginning are removed. -/
theorem dbuf_framing (ops : List Op) (length : ℕ)
    (hshort : ∀ l ∈ lines isEol (run ops).input, l.length < length) :
    (run ops).dyn.length = (run ops).dyn.stored.length ∧
      lines isEol (run ops).input = (run ops).returned ++ lines isEol (run ops).dyn.stored ∧
      unfinished isEol (run ops).dyn.stored = unfinished isEol (run ops).input ∧
      (dbufGetmsg (run ops).dyn length).2 = (lines isEol (run ops).input).getD (run ops).returned.length [] ∧
      ((dbufGetmsg (run ops).dyn length).2 = [] → ∃ eols, (∀ b ∈ eols, isEol b = true) ∧
          (run ops).dyn.stored = eols ++ (dbufGetmsg (run ops).dyn length).1.stored) := by
  have hr := inv_run ops
  refine ⟨hr.wf.length_eq, hr.lines_eq, hr.unfinished_eq, ?_, ?_⟩
  · rw [hr.lines_eq, List.getD_eq_getElem?_getD, List.getElem?_append_right le_rfl, Nat.sub_self]
    by_cases hnil : (dbufGetmsg (run ops).dyn length).2 = []
    · rw [hnil, dbufGetmsg_zero hr.wf hnil]
      · rfl
      · intro l hl
        apply hshort
        rw [hr.lines_eq]
        exact List.mem_append_right _ hl
    · obtain ⟨-, ⟨hnil', -⟩ | ⟨e, rest, hs, hne, hnot, he, -⟩⟩ := dbufGetmsg_cases hr.wf length
      · exact absurd hnil' hnil
      · rw [← lines_dropWhile (run ops).dyn.stored, hs, lines_append_cons hnot hne he]
        rfl
  · intro hnil
    obtain ⟨-, ⟨-, hstored, -⟩ | ⟨_, _, _, hne, _⟩⟩ := dbufGetmsg_cases hr.wf length
    · refine ⟨(run ops).dyn.stored.takeWhile isEol, fun b hb => List.mem_takeWhile_imp hb, ?_⟩
      rw [hstored, List.takeWhile_append_dropWhile]
    · exact absurd hnil hne

def twoLines : List Op :=
  [.put 1 [65, 66], .getmsg 512, .put 1 [67, 13, 10, 68, 10, 69], .getmsg 512]

theorem dbuf_framing_twoLines : (run twoLines).returned = [[65, 66, 67]] ∧ (run twoLines).dyn.stored = [68, 10,
    69] ∧ (dbufGetmsg (run twoLines).dyn 512).2 = [68] := by
  have hshort : ∀ l ∈ lines isEol (run twoLines).input, l.length < 512 := by decide +kernel
  refine ⟨by decide +kernel, by decide +kernel, ?_⟩
  rw [(dbuf_framing twoLines 512 hshort).2.2.2.1]
  decide +kernel

/-- **The two inputs cut a stream alike.** Of a stream whose lines fit the buffer, however it is cut into reads, the
parser of a server connection gets the messages that a queue has returned or is going to return, however it was
cut into the chunks put there and whatever else was done with the queue. -/
theorem framings_agree {σ : Type} (P : Parser σ) {c : Conn σ} (hc : c.Fresh) {ops : List Op}
    {chunks : List (List UInt8)} (h : chunks.flatten = (run ops).input)
    (hshort : ∀ l ∈ lines isEol chunks.flatten, l.length ≤ bufSize) : (Packet.run P c chunks).delivered =
      ((run ops).returned ++ lines isEol (run ops).dyn.stored).foldl (deliver P) c.delivered := by
  have hcut : cutLines chunks.flatten = lines isEol chunks.flatten :=
    (List.map_congr_left fun l hl => List.take_of_length_le (hshort l hl)).trans (List.map_id _)
  rw [run_delivered P hc, hcut, h, (inv_run ops).lines_eq]

theorem framings_agree_twoLines : (Packet.run quietParser newServer [[65], [66, 67, 13], [10, 68, 10, 69]]).delivered =
    ((run twoLines).returned ++ lines isEol (run twoLines).dyn.stored).foldl (deliver quietParser)
      newServer.delivered :=
  framings_agree quietParser newServer_fresh (by decide +kernel) (by decide +kernel)

end Nefarious.Dbuf

import Nefarious.Resolver
import Mathlib.Data.List.Range

/-!
# The names of a packet

A name is a list of labels, each behind its length, and may go on elsewhere behind a compression pointer.

Names: `ircd_reslib.c`.
-/

namespace Nefarious.Resolver

/-- C language (`unsigned char`). -/
def byteAt (buf : ℕ → ℕ) (i : ℕ) : ℕ := buf i % 256

/-- The number of bits of a bit string. `labellen`. -/
def bitlen (b : ℕ) : ℕ := if b = 0 then 256 else b

/-- Calculate the length of a particular DNS label. -/
def labellen (buf : ℕ → ℕ) (lp : ℕ) : Option ℕ :=
  if 192 ≤ byteAt buf lp then none
  else if 64 ≤ byteAt buf lp ∧ byteAt buf lp < 128 then
    if byteAt buf lp = 65 then some ((bitlen (byteAt buf (lp + 1)) + 7) / 8 + 1) else none
  else some (byteAt buf lp)

/-- The bytes it reads. `labellen`. -/
def labelReads (buf : ℕ → ℕ) (lp : ℕ) : List ℕ := if byteAt buf lp = 65 then [lp, lp + 1] else [lp]

variable {buf : ℕ → ℕ} {eob dstsiz : ℕ}

lemma labelReads_lt {lp : ℕ} (h : lp < eob) :
    (∀ i ∈ labelReads buf lp, i < eob) ↔ ¬ (lp + 1 = eob ∧ byteAt buf lp = 65) := by
  unfold labelReads
  by_cases hbits : byteAt buf lp = 65
  · rw [if_pos hbits]
    constructor
    · rintro hall ⟨hlast, -⟩
      exact absurd (hall (lp + 1) (List.mem_cons_of_mem _ List.mem_cons_self)) (by omega)
    · intro hnot i hi
      have hne : lp + 1 ≠ eob := fun he => hnot ⟨he, hbits⟩
      rcases List.mem_cons.mp hi with rfl | hi
      · exact h
      · obtain rfl := List.mem_singleton.mp hi
        omega
  · rw [if_neg hbits]
    refine iff_of_true (fun i hi => ?_) fun hlast => hbits hlast.2
    obtain rfl := List.mem_singleton.mp hi
    exact h

/-! ### Skipping a name -/

/-- The next label, if there is one. `irc_ns_name_skip`. -/
def skipNext (buf : ℕ → ℕ) (eob cp : ℕ) : Option ℕ :=
  if cp < eob ∧ byteAt buf cp ≠ 0 ∧ byteAt buf cp < 128 then (labellen buf cp).map (cp + 1 + ·) else none

/-- The bytes one turn reads. `irc_ns_name_skip`. -/
def skipReads (buf : ℕ → ℕ) (eob cp : ℕ) : List ℕ := if cp < eob then labelReads buf cp else []

lemma skipNext_lt {cp cp' : ℕ} (h : skipNext buf eob cp = some cp') : cp < eob ∧ cp < cp' := by
  unfold skipNext at h
  by_cases hin : cp < eob ∧ byteAt buf cp ≠ 0 ∧ byteAt buf cp < 128
  · rw [if_pos hin] at h
    obtain ⟨l, -, rfl⟩ := Option.map_eq_some_iff.mp h
    exact ⟨hin.1, by omega⟩
  · rw [if_neg hin] at h
    cases h

/-- Skip over a compressed domain name: where it ends. `irc_ns_name_skip`. -/
def nameSkip (buf : ℕ → ℕ) (eob cp : ℕ) : Option ℕ :=
  match h : skipNext buf eob cp with
  | some cp' => nameSkip buf eob cp'
  | none =>
    let stop :=
      if eob ≤ cp then some cp
      else if byteAt buf cp = 0 then some (cp + 1)
      else if 192 ≤ byteAt buf cp then some (cp + 2)
      else none
    if stop.any (eob < ·) then none else stop
termination_by eob - cp
decreasing_by
  have := skipNext_lt h
  omega

/-- `irc_dn_skipname`. -/
def dnSkipname (buf : ℕ → ℕ) (eob start : ℕ) : ℤ := ((nameSkip buf eob start).map fun cp => (cp - start : ℤ)).getD (-1)

/-- The labels of a name that are skipped. `irc_ns_name_skip`. -/
inductive SkipReach (buf : ℕ → ℕ) (eob start : ℕ) : ℕ → Prop where
  | start : SkipReach buf eob start start
  | next {cp cp' : ℕ} (h : SkipReach buf eob start cp) (hn : skipNext buf eob cp = some cp') :
      SkipReach buf eob start cp'

/-! ### Unpacking a name -/

/-- Where `irc_ns_name_unpack` is; the labels that are copied are its buffer. -/
structure Unpacking where
  srcp : ℕ
  checked : ℕ
  /-- `dst`: each label with its bytes. -/
  name : List (ℕ × List ℕ)
  /-- `len`, once there was a pointer. -/
  len : Option ℕ

/-- How much of the buffer is written. `irc_ns_name_unpack` (`dstp - dst`). -/
def nameSize (name : List (ℕ × List ℕ)) : ℕ := (name.map fun label => label.2.length + 1).sum

/-- `res.h` `NS_MAXCDNAME`. -/
def maxCdname : ℕ := 255

/-- Where a pointer points. `irc_ns_name_unpack`. -/
def target (buf : ℕ → ℕ) (srcp : ℕ) : ℕ := byteAt buf srcp % 64 * 256 + byteAt buf (srcp + 1)

/-- One turn: a label is copied, or a pointer followed; the loop ends at a zero byte and where something is
wrong. `irc_ns_name_unpack`. -/
def unpackNext (buf : ℕ → ℕ) (eob src : ℕ) (st : Unpacking) : Option Unpacking :=
  if byteAt buf st.srcp = 0 then none
  else if byteAt buf st.srcp < 128 then
    match labellen buf st.srcp with
    | none => none
    | some l =>
      if maxCdname ≤ nameSize st.name + l + 1 ∨ eob ≤ st.srcp + 1 + l then none
      else some { st with
        srcp := st.srcp + 1 + l
        checked := st.checked + l + 1
        name := st.name ++ [(byteAt buf st.srcp, (List.range l).map fun i => byteAt buf (st.srcp + 1 + i))] }
  else if byteAt buf st.srcp < 192 then none
  else if eob ≤ st.srcp + 1 then none
  else if eob ≤ target buf st.srcp ∨ eob ≤ st.checked + 2 then none
  else some { st with
    srcp := target buf st.srcp
    checked := st.checked + 2
    len := some (st.len.getD (st.srcp + 1 - src + 1)) }

/-- The bytes one turn reads. `irc_ns_name_unpack`. -/
def unpackReads (buf : ℕ → ℕ) (eob : ℕ) (st : Unpacking) : List ℕ :=
  if byteAt buf st.srcp < 128 then
    labelReads buf st.srcp ++
      match labellen buf st.srcp with
      | none => []
      | some l =>
        if maxCdname ≤ nameSize st.name + l + 1 ∨ eob ≤ st.srcp + 1 + l then []
        else (List.range l).map (st.srcp + 1 + ·)
  else if byteAt buf st.srcp < 192 ∨ eob ≤ st.srcp + 1 then [st.srcp]
  else [st.srcp, st.srcp + 1]

/-- **What one turn can do**: copy a label, or follow a pointer. -/
theorem unpackNext_cases {src : ℕ} {st st' : Unpacking} (h : unpackNext buf eob src st = some st') :
    (∃ l, st'.srcp = st.srcp + 1 + l ∧ st'.srcp < eob ∧ st'.checked = st.checked + l + 1 ∧
      nameSize st'.name = nameSize st.name + l + 1 ∧ nameSize st'.name < maxCdname) ∨
    (st'.srcp < eob ∧ st'.checked = st.checked + 2 ∧ st'.checked < eob ∧ st'.name = st.name) := by
  unfold unpackNext at h
  split at h
  · cases h
  · split at h
    · split at h
      · cases h
      · rename_i l _
        split at h
        · cases h
        · rename_i hfits
          obtain ⟨hroom, hin⟩ := not_or.mp hfits
          obtain rfl := Option.some.inj h
          have hsize : nameSize (st.name ++ [(byteAt buf st.srcp,
              (List.range l).map fun i => byteAt buf (st.srcp + 1 + i))]) = nameSize st.name + l + 1 := by
            unfold nameSize
            rw [List.map_append, List.sum_append]
            simp [Nat.add_assoc]
          exact .inl ⟨l, rfl, not_le.mp hin, rfl, hsize, hsize.trans_lt (not_le.mp hroom)⟩
    · split at h
      · cases h
      · split at h
        · cases h
        · split at h
          · cases h
          · rename_i hgood
            obtain ⟨htarget, hchecked⟩ := not_or.mp hgood
            obtain rfl := Option.some.inj h
            exact .inr ⟨not_le.mp htarget, rfl, not_le.mp hchecked, rfl⟩

/-- Unpack a compressed domain name: where the loop ends, if it is at a zero byte. `irc_ns_name_unpack`. -/
def unpack (buf : ℕ → ℕ) (eob src : ℕ) (st : Unpacking) : Option Unpacking :=
  match h : unpackNext buf eob src st with
  | some st' => unpack buf eob src st'
  | none => if byteAt buf st.srcp = 0 then some st else none
termination_by (eob - st.checked, eob - st.srcp)
decreasing_by
  rcases unpackNext_cases h with ⟨l, hsrcp, hin, hchecked, -⟩ | ⟨-, hchecked, hlt, -⟩
  · by_cases hmore : st.checked < eob
    · exact Prod.Lex.left _ _ (by omega)
    · have hsame : eob - st'.checked = eob - st.checked := by omega
      rw [hsame]
      exact Prod.Lex.right _ (by omega)
  · exact Prod.Lex.left _ _ (by omega)

/-- Where it starts. `irc_ns_name_unpack`. -/
def Unpacking.init (src : ℕ) : Unpacking := ⟨src, 0, [], none⟩

/-- The turns of the loop, and how many pointers were followed. `irc_ns_name_unpack`. -/
inductive UnpackReach (buf : ℕ → ℕ) (eob src : ℕ) : ℕ → Unpacking → Prop where
  | start : UnpackReach buf eob src 0 (.init src)
  | next {hops : ℕ} {st st' : Unpacking} (h : UnpackReach buf eob src hops st)
      (hn : unpackNext buf eob src st = some st') :
      UnpackReach buf eob src (if st'.name = st.name then hops + 1 else hops) st'

/-- **What holds in every turn**: it reads in the packet, has not copied more than the buffer holds, and has
followed no more pointers than there are pairs of bytes. -/
theorem UnpackReach.inv {src hops : ℕ} {st : Unpacking} (hsrc : src < eob)
    (h : UnpackReach buf eob src hops st) :
    st.srcp < eob ∧ nameSize st.name < maxCdname ∧ 2 * hops ≤ st.checked ∧ (hops = 0 ∨ 2 * hops < eob) := by
  induction h with
  | start => exact ⟨hsrc, Nat.succ_pos _, Nat.zero_le _, Or.inl rfl⟩
  | next _ hn ih =>
    obtain ⟨-, hsize, hchecked, hhops⟩ := ih
    rcases unpackNext_cases hn with ⟨l, -, hin, hmore, hgrown, hroom⟩ | ⟨hin, hmore, hlt, hsame⟩
    · have hne : ∀ {a b : List (ℕ × List ℕ)}, nameSize a = nameSize b + l + 1 → a ≠ b := by
        rintro a _ he rfl
        omega
      rw [if_neg (hne hgrown)]
      exact ⟨hin, hroom, by omega, hhops⟩
    · rw [if_pos hsame, hsame]
      exact ⟨hin, hsize, by omega, Or.inr (by omega)⟩

lemma unpackReads_lt {st : Unpacking} (h : st.srcp < eob) :
    (∀ i ∈ unpackReads buf eob st, i < eob) ↔ ¬ (st.srcp + 1 = eob ∧ byteAt buf st.srcp = 65) := by
  unfold unpackReads
  by_cases hlabel : byteAt buf st.srcp < 128
  · rw [if_pos hlabel, ← labelReads_lt h]
    constructor
    · exact fun hall i hi => hall i (List.mem_append_left _ hi)
    · intro hall i hi
      rcases List.mem_append.mp hi with hi | hi
      · exact hall i hi
      · split at hi
        · cases hi
        · split at hi
          · cases hi
          · rename_i hfits
            obtain ⟨j, hj, rfl⟩ := List.mem_map.mp hi
            have := List.mem_range.mp hj
            have := not_le.mp (not_or.mp hfits).2
            omega
  · rw [if_neg hlabel]
    refine iff_of_true ?_ fun hlast => hlabel (hlast.2.trans_lt (by decide))
    split
    · intro i hi
      obtain rfl := List.mem_singleton.mp hi
      exact h
    · rename_i hmore
      have hnext := not_le.mp (not_or.mp hmore).2
      intro i hi
      rcases List.mem_cons.mp hi with rfl | hi
      · exact h
      · obtain rfl := List.mem_singleton.mp hi
        exact hnext

/-! ### Printing a name -/

/-- Two hexadecimal digits at least. `irc_decode_bitstring` (`%02x`). -/
def hex2 (n : ℕ) : Str := if n < 16 then ['0', hexdigit n] else hexText n

/-- A `char` as an unsigned int. C language. -/
def charBits (b : ℕ) : ℕ := if b < 128 then b else b + 0xffffff00

/-- The last bits of a bit string. `irc_decode_bitstring`. -/
def lastBits (b byte : ℕ) : Str :=
  if 4 < b then hex2 (charBits byte &&& (255 <<< (8 - b)))
  else if 0 < b then [hexdigit ((byte / 16) &&& (15 <<< (4 - b)) &&& 15)]
  else []

/-- The text of a bit string. `irc_decode_bitstring`. -/
def bitstring (blen : ℕ) (bytes : List ℕ) : Str :=
  ['\\', '[', 'x'] ++ (bytes.take (blen / 8)).flatMap (fun c => hex2 (c % 256)) ++
    lastBits (blen % 8) (bytes.getD (blen / 8) 0 % 256) ++ '/' :: digits blen ++ [']']

/-- The room it asks for. `irc_decode_bitstring` (`plen`). -/
def bitstringRoom (blen : ℕ) : ℕ := (blen + 3) / 4 + 6 + (if 99 < blen then 3 else if 9 < blen then 2 else 1)

/-- The characters that are quoted. -/
def special (c : ℕ) : Bool := c ∈ [0x22, 0x2E, 0x3B, 0x5C, 0x28, 0x29, 0x40, 0x24]

/-- How a character is printed. `irc_ns_name_ntop`, `printable`. -/
def ntopChar (c : ℕ) : Str :=
  if special c then ['\\', Char.ofNat c]
  else if 0x20 < c ∧ c < 0x7f then [Char.ofNat c]
  else ['\\', hexdigit (c / 100), hexdigit (c % 100 / 10), hexdigit (c % 10)]

/-- Write a text if there is room; an error is what was written until then. `irc_ns_name_ntop`. -/
def put (dstsiz : ℕ) (dn text : Str) : Except Str Str :=
  if dstsiz < dn.length + text.length then .error dn else .ok (dn ++ text)

/-- Print a label. `irc_ns_name_ntop`. -/
def ntopLabel (dstsiz : ℕ) (dn : Str) (label : ℕ × List ℕ) : Except Str Str :=
  (if dn = [] then .ok dn else put dstsiz dn ['.']) >>= fun dn =>
  if dstsiz ≤ dn.length + label.2.length then .error dn
  else if 64 ≤ label.1 then
    let blen := bitlen (label.2.headD 0 % 256)
    if dstsiz ≤ dn.length + bitstringRoom blen then .error dn
    else .ok (dn ++ bitstring blen label.2.tail)
  else label.2.foldlM (fun dn c => put dstsiz dn (ntopChar c)) dn

/-- Convert the labels to printable ASCII, with the NUL behind. `irc_ns_name_ntop`. -/
def ntop (dstsiz : ℕ) (name : List (ℕ × List ℕ)) : Except Str Str :=
  name.foldlM (ntopLabel dstsiz) [] >>= fun dn =>
  (if dn = [] then put dstsiz dn ['.'] else .ok dn) >>= fun dn => put dstsiz dn ['\x00']

/-- `ircd_res.c` `proc_answer` (`hostbuf`). -/
def hostbufSize : ℕ := hostlen + 100

/-- Expand compressed domain name to full domain name: its bytes in the packet, and the name. `irc_dn_expand`, `irc_ns_name_uncompress`. -/
def dnExpand (buf : ℕ → ℕ) (eob src : ℕ) : ℤ × Str :=
  if eob ≤ src then (-1, [])
  else
    match unpack buf eob src (.init src) with
    | none => (-1, [])
    | some st =>
      match ntop hostbufSize st.name with
      | .error _ => (-1, [])
      | .ok text => (st.len.getD (st.srcp + 1 - src), if text.head? = some '.' then [] else text.dropLast)

def written : Except Str Str → Str
  | .error dn => dn
  | .ok dn => dn

lemma length_put {dn text : Str} (h : dn.length ≤ dstsiz) :
    (written (put dstsiz dn text)).length ≤ dstsiz := by
  unfold put
  split
  · exact h
  · rename_i hroom
    exact (List.length_append ..).trans_le (not_lt.mp hroom)

lemma length_bind {x : Except Str Str} {f : Str → Except Str Str} (hx : (written x).length ≤ dstsiz)
    (hf : ∀ dn, dn.length ≤ dstsiz → (written (f dn)).length ≤ dstsiz) :
    (written (x >>= f)).length ≤ dstsiz := by
  cases x with
  | error dn => exact hx
  | ok dn => exact hf dn hx

lemma length_foldlM {α : Type} {dstsiz : ℕ} {f : Str → α → Except Str Str}
    (hf : ∀ dn a, dn.length ≤ dstsiz → (written (f dn a)).length ≤ dstsiz) :
    (l : List α) → ∀ {dn : Str}, dn.length ≤ dstsiz → (written (l.foldlM f dn)).length ≤ dstsiz
  | [], _, h => h
  | a :: l, dn, h => by
    rw [List.foldlM_cons]
    exact length_bind (hf dn a h) fun dn' h' => length_foldlM hf l h'

lemma length_hex2 : ∀ c < 256, (hex2 c).length = 2 := by decide +kernel

lemma length_lastBits : ∀ b < 8, ∀ c < 256, (lastBits b c).length ≤ (b + 3) / 4 + if 4 < b then 1 else 0 := by
  decide +kernel

lemma length_digits : ∀ n < 257, (digits n).length ≤ if 99 < n then 3 else if 9 < n then 2 else 1 := by
  decide +kernel

lemma length_flatMap_hex2 : (l : List ℕ) → (l.flatMap fun c => hex2 (c % 256)).length = 2 * l.length
  | [] => rfl
  | c :: l => by
    have hc := length_hex2 (c % 256) (Nat.mod_lt _ (by decide))
    rw [List.flatMap_cons, List.length_append, length_flatMap_hex2 l, hc, List.length_cons]
    omega

/-- **A bit string takes no more than the room that it asks for**, which leaves a byte for the NUL. Its last
digits may be three, since a `char` is signed. -/
theorem length_bitstring {blen : ℕ} (h : blen ≤ 256) (bytes : List ℕ) :
    (bitstring blen bytes).length ≤ bitstringRoom blen := by
  have hlast := length_lastBits (blen % 8) (Nat.mod_lt _ (by decide)) (bytes.getD (blen / 8) 0 % 256)
    (Nat.mod_lt _ (by decide))
  have hdigits := length_digits blen (Nat.lt_succ_of_le h)
  have htake : (bytes.take (blen / 8)).length ≤ blen / 8 := List.length_take_le ..
  have hbits : (if 4 < blen % 8 then 1 else 0) ≤ 1 := by
    split <;> decide
  unfold bitstring bitstringRoom
  simp only [List.length_append, List.length_cons, List.length_nil, length_flatMap_hex2]
  omega

lemma bitlen_le {b : ℕ} (h : b < 256) : bitlen b ≤ 256 := by
  unfold bitlen
  split
  · exact le_rfl
  · exact h.le

lemma length_ntopLabel (dn : Str) (label : ℕ × List ℕ) (h : dn.length ≤ dstsiz) :
    (written (ntopLabel dstsiz dn label)).length ≤ dstsiz := by
  unfold ntopLabel
  apply length_bind
  · split
    · exact h
    · exact length_put h
  · intro dn' h'
    split
    · exact h'
    · split
      · dsimp only
        split
        · exact h'
        · rename_i hroom
          have hlen := length_bitstring (bitlen_le (Nat.mod_lt (label.2.headD 0) (by decide : 0 < 256))) label.2.tail
          exact (List.length_append ..).trans_le (by omega)
      · exact length_foldlM (fun dn c hdn => length_put hdn) label.2 h'

lemma ntop_length (dstsiz : ℕ) (name : List (ℕ × List ℕ)) : (written (ntop dstsiz name)).length ≤ dstsiz := by
  unfold ntop
  apply length_bind (length_foldlM length_ntopLabel name (Nat.zero_le _))
  intro dn h
  apply length_bind
  · split
    · exact length_put h
    · exact h
  · exact fun dn' h' => length_put h'

end Nefarious.Resolver

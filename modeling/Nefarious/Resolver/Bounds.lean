import Nefarious.Resolver.Answers
import Nefarious.Resolver.Names

/-!
# What is read of a packet

The bytes that `proc_answer` reads: those of the names that it skips and expands, on its walk over the answers,
and of headers and data.
-/

namespace Nefarious.Resolver

/-- The names of a system are those of the library. `ircd_reslib.c`. -/
def Env.withNames (env : Env) : Env := { env with dnExpand := Resolver.dnExpand, dnSkipname := Resolver.dnSkipname }

/-- Where a question starts. `ircd_res.c` `proc_answer`. -/
def questionAt (reply : Reply) : ℕ → Option ℕ
  | 0 => some 12
  | k + 1 => (questionAt reply k).bind fun current =>
    if dnSkipname reply.buf reply.eob current < 0 then none
    else some (current + (dnSkipname reply.buf reply.eob current).toNat + 4)

section
variable (env : Env) (reply : Reply) (r : Reslist)

/-- An answer that is reached. `ircd_res.c` `proc_answer`. -/
def AnswerAt (start : ℕ) (cname : Bool) : Prop :=
  ∃ k < reply.ancount, walk env.withNames reply (decide (r.state = .cname)) k = some (start, cname)

/-- An answer that is reached, whose name and header can be read. `ircd_res.c` `proc_answer`. -/
def RecordAt (start : ℕ) (cname : Bool) : Prop :=
  AnswerAt env reply r start cname ∧ IsRecord env.withNames reply.buf reply.eob start

/-- A name that is expanded: that of an answer, or in the data of a PTR or a second CNAME. Source:
`ircd_res.c` `proc_answer`. -/
def Expanded (start : ℕ) : Prop :=
  start < reply.eob ∧ ((∃ cname, AnswerAt env reply r start cname) ∨
    ∃ first cname, RecordAt env reply r first cname ∧ start = recData env.withNames reply.buf reply.eob first ∧
      ((recType env.withNames reply.buf reply.eob first = tPTR ∧ r.type = tPTR) ∨
        (recType env.withNames reply.buf reply.eob first = tCNAME ∧ cname = true)))

/-- An address of so many bytes that is copied. `ircd_res.c` `proc_answer` (`T_A`, `T_AAAA`). -/
def Copied (start size : ℕ) : Prop :=
  ∃ first cname, RecordAt env reply r first cname ∧ start = recData env.withNames reply.buf reply.eob first ∧
    recType env.withNames reply.buf reply.eob first = r.type ∧
    recLength env.withNames reply.buf reply.eob first = size ∧ ((r.type = tA ∧ size = 4) ∨ (r.type = tAAAA ∧ size = 16))

/-- A byte that is read. `ircd_res.c` `proc_answer`. -/
inductive ReadAt : ℕ → Prop where
  /-- The header, of a packet that is longer. -/
  | packet {i : ℕ} (hlong : 12 < reply.eob) (hi : i < 12) : ReadAt i
  | question {k start cp i : ℕ} (hk : k < reply.qdcount) (hq : questionAt reply k = some start)
      (hr : SkipReach reply.buf reply.eob start cp) (hi : i ∈ skipReads reply.buf reply.eob cp) : ReadAt i
  | name {start hops i : ℕ} {st : Unpacking} (he : Expanded env reply r start)
      (hr : UnpackReach reply.buf reply.eob start hops st) (hi : i ∈ unpackReads reply.buf reply.eob st) : ReadAt i
  | header {start i : ℕ} {cname : Bool} (h : RecordAt env reply r start cname)
      (hi : i ∈ [0, 1, 8, 9].map (Resolver.header env.withNames reply.buf reply.eob start + ·)) : ReadAt i
  | data {start size i : ℕ} (h : Copied env reply r start size) (hi : i ∈ (List.range size).map (start + ·)) : ReadAt i

/-- **All is in bounds**: only bytes of the packet are read, a name follows fewer pointers than there are bytes,
and its buffers hold what is written. -/
structure Bounded : Prop where
  reads : ∀ i, ReadAt env reply r i → i < reply.eob
  pointers : ∀ start hops st, Expanded env reply r start → UnpackReach reply.buf reply.eob start hops st →
    hops < reply.eob
  unpacked : ∀ start hops st, Expanded env reply r start → UnpackReach reply.buf reply.eob start hops st →
    nameSize st.name + 1 ≤ maxCdname
  printed : ∀ name, (written (ntop hostbufSize name)).length ≤ hostbufSize

/-- The packet ends in the label of a bit string that a name reaches. `ircd_reslib.c` `labellen`. -/
def EndsInBitstring : Prop :=
  0 < reply.eob ∧ byteAt reply.buf (reply.eob - 1) = 65 ∧
    ((∃ k start, k < reply.qdcount ∧ questionAt reply k = some start ∧
      SkipReach reply.buf reply.eob start (reply.eob - 1)) ∨
    ∃ start hops st, Expanded env reply r start ∧ UnpackReach reply.buf reply.eob start hops st ∧
      st.srcp = reply.eob - 1)

/-- **All is in bounds**, unless the packet ends in the label of a bit string, or in the data of an address. -/
theorem bounded_iff : Bounded env reply r ↔ ¬ EndsInBitstring env reply r ∧
    ∀ start size, Copied env reply r start size → start + size ≤ reply.eob := by
  constructor
  · intro h
    refine ⟨?_, fun start size hc => ?_⟩
    · rintro ⟨hpos, hbits, ⟨k, start, hk, hq, hr⟩ | ⟨start, hops, st, he, hr, hlast⟩⟩
      · have hin : reply.eob - 1 < reply.eob := Nat.sub_lt hpos Nat.one_pos
        have hall : ∀ i ∈ labelReads reply.buf (reply.eob - 1), i < reply.eob := by
          intro i hi
          refine h.reads i (.question hk hq hr ?_)
          rw [skipReads, if_pos hin]
          exact hi
        exact (labelReads_lt hin).mp hall ⟨Nat.sub_add_cancel hpos, hbits⟩
      · have hin : st.srcp < reply.eob := (hr.inv he.1).1
        refine (unpackReads_lt hin).mp (fun i hi => h.reads i (.name he hr hi)) ⟨?_, ?_⟩
        · rw [hlast]
          exact Nat.sub_add_cancel hpos
        · rw [hlast]
          exact hbits
    · have hsize : 0 < size := by
        obtain ⟨_, _, _, _, _, _, ⟨_, rfl⟩ | ⟨_, rfl⟩⟩ := hc
        · decide
        · decide
      have hlast : start + (size - 1) < reply.eob :=
        h.reads _ (.data hc (List.mem_map_of_mem (List.mem_range.mpr (Nat.sub_lt hsize Nat.one_pos))))
      omega
  · rintro ⟨hbits, hdata⟩
    refine ⟨fun i hi => ?_, fun start hops st he hr => ?_, fun start hops st he hr => ?_, fun name => ntop_length _ name⟩
    · cases hi with
      | packet hlong hi => exact hi.trans hlong
      | question hk hq hr hi =>
        rename_i k start cp
        by_cases hin : cp < reply.eob
        · rw [skipReads, if_pos hin] at hi
          refine (labelReads_lt hin).mpr ?_ i hi
          rintro ⟨hlast, hlabel⟩
          obtain rfl : cp = reply.eob - 1 := by omega
          exact hbits ⟨by omega, hlabel, Or.inl ⟨k, start, hk, hq, hr⟩⟩
        · rw [skipReads, if_neg hin] at hi
          cases hi
      | name he hr hi =>
        rename_i start hops st
        have hin := (hr.inv he.1).1
        refine (unpackReads_lt hin).mpr ?_ i hi
        rintro ⟨hlast, hlabel⟩
        have hsrcp : st.srcp = reply.eob - 1 := by omega
        rw [hsrcp] at hlabel
        exact hbits ⟨by omega, hlabel, Or.inr ⟨start, hops, st, he, hr, hsrcp⟩⟩
      | header h hi =>
        have hfits := h.2.2.2
        obtain ⟨j, hj, rfl⟩ := List.mem_map.mp hi
        have hle : j ≤ 9 := by
          have hall : ∀ j ∈ [0, 1, 8, 9], j ≤ 9 := by decide
          exact hall j hj
        omega
      | data h hi =>
        obtain ⟨j, hj, rfl⟩ := List.mem_map.mp hi
        have := hdata _ _ h
        have := List.mem_range.mp hj
        omega
    · have := he.1
      obtain ⟨-, -, -, rfl | hlt⟩ := hr.inv he.1
      · omega
      · omega
    · exact (hr.inv he.1).2.1

end

/-- A packet with the header of an A record of the root and one byte of its data. `res.h` `HEADER`. -/
def cutReply : Reply := ⟨7, 0, 0, 1, fun i => if i = 14 then 1 else if i = 22 then 4 else 0, 24⟩

/-- **An address that is cut off is read behind the packet**. -/
theorem cut_address : ¬ Bounded rootNames cutReply addressRequest := by
  have hname : dnExpand cutReply.buf cutReply.eob 12 = (1, []) := by
    have hroot : unpack cutReply.buf cutReply.eob 12 (.init 12) = some (.init 12) := by
      rw [unpack]
      rfl
    unfold dnExpand
    rw [if_neg (by decide), hroot]
    rfl
  have hheader : header rootNames.withNames cutReply.buf cutReply.eob 12 = 13 :=
    congrArg (fun name : ℤ × Str => 12 + name.1.toNat) hname
  have hdata : recData rootNames.withNames cutReply.buf cutReply.eob 12 = 23 := congrArg (· + 10) hheader
  have hrec : RecordAt rootNames cutReply addressRequest 12 false := by
    refine ⟨⟨0, by decide, rfl⟩, by decide, ?_, ?_⟩
    · exact (congrArg Prod.fst hname).symm ▸ Int.one_pos
    · rw [hheader]
      decide
  have hcopied : Copied rootNames cutReply addressRequest 23 4 := by
    refine ⟨12, false, hrec, hdata.symm, ?_, ?_, Or.inl ⟨rfl, rfl⟩⟩
    · unfold recType
      rw [hheader]
      rfl
    · unfold recLength
      rw [hheader]
      rfl
  intro h
  exact absurd (h.reads 26 (.data hcopied (by decide))) (by decide)

end Nefarious.Resolver

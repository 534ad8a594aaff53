import Nefarious.Input.Packet
import Nefarious.Output.Sends

/-!
# A link between two servers

What one server queues for the other leaves the send queue in pieces of any size, is read in pieces of any
size, and is cut into lines again.
-/

namespace Nefarious.Link

open Lib Msgq
open List (length_append map_cons mem_append mem_cons_self mem_cons_of_mem mem_map_of_mem)

/-- Characters of a text, as they are sent. `os_generic.c` `os_sendv_nonb`. -/
def bytes (l : Str) : List UInt8 := l.map fun c => UInt8.ofNat c.toNat

/-- A line with its end. `msgq.c` `msgq_vmake`. -/
def ended (l : Str) : Str := l ++ ['\r', '\n']

/-- A line that may be sent: it is not empty and has no end of a line in it. `msgq.c` `msgq_vmake`. -/
structure IsLine (l : Str) : Prop where
  ne : l ≠ []
  noEol : ∀ b ∈ bytes l, Packet.isEol b = false

/-! ## What is read of a beginning -/

lemma IsLine.bytes_ne {l : Str} (h : IsLine l) : bytes l ≠ [] := fun e => h.ne (List.map_eq_nil_iff.mp e)

lemma IsLine.cut {l : Str} (h : IsLine l) (x : Str) :
    lines Packet.isEol (bytes (ended l ++ x)) = bytes l :: lines Packet.isEol (bytes x) ∧
      unfinished Packet.isEol (bytes (ended l ++ x)) = unfinished Packet.isEol (bytes x) := by
  have hsplit : bytes (ended l ++ x) = bytes l ++ 13 :: 10 :: bytes x := by simp [bytes, ended]
  rw [hsplit, lines_append_cons h.noEol h.bytes_ne (by decide), lines_cons_eol (by decide),
    unfinished_append_cons _ (by decide)]
  exact ⟨rfl, unfinished_append_cons [] (by decide) _⟩

/-- Of a line that is sent in part nothing is read before its end begins, and all of it then. -/
lemma IsLine.part {l x : Str} (h : IsLine l) (hx : x <+: ended l) (hne : x ≠ ended l) :
    (lines Packet.isEol (bytes x) = [] ∨ lines Packet.isEol (bytes x) = [bytes l]) ∧
      (unfinished Packet.isEol (bytes x)).length ≤ l.length := by
  have htake : x = (ended l).take x.length := List.prefix_iff_eq_take.mp hx
  by_cases hle : x.length ≤ l.length
  · have hno : ∀ b ∈ bytes x, Packet.isEol b = false := by
      intro b hb
      rw [htake, ended, List.take_append_of_le_length hle] at hb
      obtain ⟨c, hc, rfl⟩ := List.mem_map.mp hb
      exact h.noEol _ (mem_map_of_mem (List.mem_of_mem_take hc))
    refine ⟨Or.inl (lines_eq_nil hno), ?_⟩
    simp only [unfinished, List.splitOnP_eq_singleton hno, List.getLast_singleton]
    rwa [bytes, List.length_map]
  · have hlen : x.length = l.length + 1 := by
      have := hx.length_le
      have hlt : x.length ≠ (ended l).length := fun e => hne (hx.eq_of_length e)
      rw [ended, length_append] at this hlt
      simp only [List.length_cons, List.length_nil] at this hlt
      omega
    have hx : bytes x = bytes l ++ [13] := by
      rw [htake, hlen, ended, List.take_length_add_append]
      simp [bytes]
    rw [hx, lines_append_cons h.noEol h.bytes_ne (by decide), lines_nil, unfinished_append_cons _ (by decide)]
    exact ⟨Or.inr rfl, Nat.zero_le _⟩

lemma cut_beginning : (ls : List Str) → (∀ l ∈ ls, IsLine l ∧ l.length ≤ 510) → ∀ {x : Str},
    x <+: (ls.map ended).flatten → (∃ n, lines Packet.isEol (bytes x) = (ls.take n).map bytes) ∧
      (unfinished Packet.isEol (bytes x)).length ≤ 510
  | [], _, x, hx => by
    rw [List.prefix_nil.mp hx]
    exact ⟨⟨0, rfl⟩, Nat.zero_le _⟩
  | l :: ls, h, x, hx => by
    obtain ⟨hl, hlen⟩ := h l mem_cons_self
    rw [map_cons, List.flatten_cons] at hx
    by_cases hwhole : ended l <+: x
    · obtain ⟨y, rfl⟩ := hwhole
      obtain ⟨⟨n, hn⟩, hun⟩ := cut_beginning ls (fun m hm => h m (mem_cons_of_mem _ hm))
        ((List.prefix_append_right_inj _).mp hx)
      rw [(hl.cut y).1, (hl.cut y).2]
      exact ⟨⟨n + 1, by rw [hn, List.take_succ_cons, map_cons]⟩, hun⟩
    · have hpre : x <+: ended l :=
        (List.prefix_or_prefix_of_prefix hx (List.prefix_append ..)).resolve_right hwhole
      obtain ⟨hcases, hun⟩ := hl.part hpre fun e => hwhole (e ▸ List.prefix_refl _)
      refine ⟨?_, hun.trans hlen⟩
      rcases hcases with e | e
      · exact ⟨0, e⟩
      · exact ⟨1, e⟩

lemma lines_all : (ls : List Str) → (∀ l ∈ ls, IsLine l) →
    lines Packet.isEol (bytes (ls.map ended).flatten) = ls.map bytes
  | [], _ => rfl
  | l :: ls, h => by
    rw [map_cons, List.flatten_cons, ((h l mem_cons_self).cut _).1,
      lines_all ls fun m hm => h m (mem_cons_of_mem _ hm), map_cons]

/-! ## What is queued -/

section Run

variable {Q : Type} [DecidableEq Q] [Fintype Q] {s t : Sends Q}

omit [Fintype Q] in
lemma step_added {e : Event Q} (h : s.step e = some t) : t.added = s.added ∨ ∃ q mb prio b, mb ∈ s.held ∧
    s.data.heap mb = some b ∧ t.added = Function.update s.added q (s.added q ++ [(prio, b.text)]) := by
  cases e
  case add q mb prio pool fresh =>
    obtain ⟨b, hb, h⟩ := Option.bind_eq_some_iff.mp h
    split at h
    case isFalse => cases h
    case isTrue hheld =>
      obtain ⟨r, -, h⟩ := Option.bind_eq_some_iff.mp h
      cases h
      exact Or.inr ⟨q, mb, prio, b, hheld.1, hb, rfl⟩
  -- The other events queue nothing.
  all_goals
    left
    simp only [Sends.step, Sends.drop, Option.bind_eq_bind, Option.bind_eq_some_iff, Option.ite_none_right_eq_some,
      Option.some.injEq] at h
    grind

lemma added_short : (es : List (Event Q)) → ∀ {s : Sends Q} {L : Finset BufId}, s.Good L →
    (∀ q, ∀ a ∈ s.added q, a.2.length ≤ 512) → s.run es = some t → ∀ q, ∀ a ∈ t.added q, a.2.length ≤ 512
  | [], _, _, _, hs, h => by cases h; exact hs
  | e :: es, s, L, hgood, hs, h => by
    obtain ⟨u, hu, h⟩ := Option.bind_eq_some_iff.mp h
    obtain ⟨L', hgood'⟩ := hgood.step e hu
    refine added_short es hgood' (fun q a ha => ?_) h
    rcases step_added hu with hadded | ⟨p, mb, prio, b, hheld, hb, hadded⟩
    · exact hs q a (hadded ▸ ha)
    · rw [hadded] at ha
      by_cases hq : q = p
      · subst hq
        rw [Function.update_self] at ha
        rcases mem_append.mp ha with ha | ha
        · exact hs q a ha
        · rw [List.mem_singleton.mp ha]
          exact (hgood.short mb (hgood.held_mem hheld) b hb).2
      · rw [Function.update_of_ne hq] at ha
        exact hs q a ha

/-- **A link loses, repeats and mixes no lines.** When lines are queued for the other side in a run, and of the bytes
that have left the queue any beginning has been read there, in pieces of any size, then the parser has got the
first of these lines, each once and whole, and no index of the input buffer was past its end; once the queue is
empty and all is read, it has got all of them. -/
theorem link_delivers {σ : Type} (P : Packet.Parser σ) {c : Packet.Conn σ} (hc : c.Fresh) {es : List (Event Q)}
    (h : (Sends.init Q).run es = some s) {q : Q} {ls : List Str}
    (hls : (s.added q).map Prod.snd = ls.map ended) (hline : ∀ l ∈ ls, IsLine l) {chunks : List (List UInt8)}
    {x : Str} (hx : x <+: s.wire q) (hread : chunks.flatten = bytes x) :
    (∃ n, (Packet.run P c chunks).delivered = ((ls.take n).map bytes).foldl (Packet.deliver P) c.delivered) ∧
      (Packet.run P c chunks).top ≤ bufSize ∧ (x = s.wire q → (s.queues q).queue = [] →
        (Packet.run P c chunks).delivered = (ls.map bytes).foldl (Packet.deliver P) c.delivered) := by
  obtain ⟨L, hgood⟩ := Sends.Good.init.run es h
  have hshort : ∀ l ∈ ls, IsLine l ∧ l.length ≤ 510 := by
    intro l hl
    have hmem : ended l ∈ (s.added q).map Prod.snd := hls ▸ mem_map_of_mem hl
    obtain ⟨a, ha, e⟩ := List.mem_map.mp hmem
    have := added_short es Sends.Good.init (fun _ _ ha => (by cases ha)) h q a ha
    rw [e, ended, length_append, List.length_cons, List.length_singleton] at this
    exact ⟨hline l hl, by omega⟩
  have hq := hgood.queues q
  obtain ⟨done, hadded, hwire⟩ := hq.wire
  have hpre : s.wire q <+: (ls.map ended).flatten := by
    rw [← hls, hadded, List.flatten_append, hq.head.flatten, hwire, ← List.append_assoc]
    exact List.prefix_append ..
  have hdel : ∀ n, lines Packet.isEol (bytes x) = (ls.take n).map bytes →
      (Packet.run P c chunks).delivered = ((ls.take n).map bytes).foldl (Packet.deliver P) c.delivered := by
    intro n hn
    have hfit : ((ls.take n).map bytes).map (List.take bufSize) = (ls.take n).map bytes := by
      rw [List.map_map]
      refine List.map_congr_left fun l hl => List.take_of_length_le ?_
      have hlen := (hshort l (List.mem_of_mem_take hl)).2
      rw [bytes, List.length_map]
      exact hlen.trans (by decide)
    rw [Packet.run_delivered P hc, hread, Packet.cutLines, hn, hfit]
  obtain ⟨⟨n, hn⟩, -⟩ := cut_beginning ls hshort (hx.trans hpre)
  refine ⟨⟨n, hdel n hn⟩, ?_, fun hall hempty => ?_⟩
  · rw [Packet.run_eq_foldl, hread]
    refine Packet.top_le_of_short P hc fun pre b post e => ?_
    have hb : pre = bytes (x.take pre.length) := by
      rw [bytes, List.map_take, ← bytes, e, List.take_left]
    rw [hb]
    exact (cut_beginning ls hshort ((List.take_prefix ..).trans (hx.trans hpre))).2.trans_lt (by decide)
  · have hend : x = (ls.map ended).flatten := by
      rw [hall, hwire, ← hls, hadded, hempty, List.map_nil, begun, List.append_nil, List.append_nil]
    have hlast := hdel ls.length
    rw [List.take_length] at hlast
    exact hlast (hend ▸ lines_all ls hline)

end Run

/-- A line is read in two pieces. -/
theorem link_delivers_ab : ∃ s, (Sends.init Unit).run [.make ['a', 'b'] 4096 0, .add () 0 false 4096 1,
    .send () 8 4] = some s ∧ (Packet.run Packet.quietParser Packet.newServer [[97], [98, 13, 10]]).delivered =
    ([['a', 'b']].map bytes).foldl (Packet.deliver Packet.quietParser) Packet.newServer.delivered := by
  obtain ⟨s, hs, hadded, hwire, hqueue⟩ : ∃ s, (Sends.init Unit).run
      [.make ['a', 'b'] 4096 0, .add () 0 false 4096 1, .send () 8 4] = some s ∧
      ((s.added ()).map Prod.snd = [['a', 'b']].map ended ∧ s.wire () = ended ['a', 'b'] ∧
      (s.queues ()).queue = []) := ⟨_, rfl, by decide⟩
  have hline : ∀ l ∈ [['a', 'b']], IsLine l := fun l hl => List.mem_singleton.mp hl ▸ ⟨by decide,
    List.forall_mem_cons.mpr ⟨rfl, List.forall_mem_singleton.mpr rfl⟩⟩
  exact ⟨s, hs, (link_delivers Packet.quietParser Packet.newServer_fresh hs hadded hline List.prefix_rfl
    (hwire ▸ rfl)).2.2 rfl hqueue⟩

end Nefarious.Link

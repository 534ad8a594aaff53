import Mathlib.Data.Finset.Card
import Nefarious.Canonize
import Nefarious.Lib.Probing
import Nefarious.Message
import Nefarious.Network.State

/-!
# Juped nicks

Nicks that nobody may use are in a table with a nick in a bucket, searched from the bucket of its hash on.

Names: `hash.c`.
-/

namespace Nefarious.Jupes

open Function (update update_of_ne update_self)

open Lib.Probing Canonize Network

/-! ## The source functions -/

def nickLen : ℕ := 30

def jupeHashSize : ℕ := 2 ^ 12

/-- Maximum number of jupes allowed. -/
def jupeMax : ℕ := 2 ^ 6

/-- The table of nicks, with the one that hashes them. -/
structure Table where
  crc32hash : ℕ → ℕ
  jupeTable : ℕ → Str
  jupesCount : ℕ

/-- A loop over the table ends at a bucket that is empty or has the nick. -/
def Table.stops (t : Table) (nick : Str) (pos : ℕ) : Bool :=
  t.jupeTable pos = [] || strEq nick (t.jupeTable pos)

/-- The bucket at which a loop over the table ends, if it ends. -/
def Table.probe (t : Table) (nick : Str) : Option ℕ :=
  seek jupeHashSize (t.stops nick) jupeHashSize (strhash t.crc32hash nick)

/-- Check whether a nickname is juped. -/
def Table.isNickJuped (t : Table) (nick : Str) : Option Bool :=
  if nick = [] then some false else (t.probe nick).map fun pos => t.jupeTable pos ≠ []

/-- A nick is copied into a bucket. `addNickJupes` -/
def Table.put (t : Table) (pos : ℕ) (one : Str) : Table :=
  { t with
    jupesCount := t.jupesCount + 1
    jupeTable := update t.jupeTable pos (ircdStrncpy (t.jupeTable pos) one (nickLen + 1)) }

/-- A turn of the loop over the nicks of a list, with whether the table is full. `addNickJupes` -/
def Table.addOne (t : Table) (one : Str) : Option (Table × Bool) :=
  (t.probe one).map fun pos =>
    if t.jupeTable pos = [] then
      if t.jupesCount = jupeMax then (t, true) else (t.put pos one, false)
    else (t, false)

/-- The loop over the nicks of a list. `addNickJupes` -/
def Table.addLoop (t : Table) (temp : Str) : Option (Table × Bool) :=
  match h : ircdStrtok temp with
  | none => some (t, false)
  | some (_, one, p) =>
    match t.addOne one with
    | none => none
    | some (t', true) => some (t', true)
    | some (t', false) =>
      match p with
      | none => some (t', false)
      | some rest => t'.addLoop rest
termination_by temp.length
decreasing_by
  rw [(ircdStrtok_eq h).1]
  simp only [behind, List.length_append, List.length_cons]
  omega

/-- Add a comma-separated list of nick jupes, with whether there is an error. -/
def Table.addNickJupes (t : Table) (nicks : Str) : Option (Table × Bool) :=
  if nicks = [] then some (t, false) else t.addLoop (ircdStrncpy [] nicks (bufSize + 1))

/-- Empty the table of juped nicknames. -/
def Table.clearNickJupes (t : Table) : Table :=
  { t with jupesCount := 0, jupeTable := fun i => if i < jupeHashSize then [] else t.jupeTable i }

/-! ## Runs -/

/-- The nicks of a list, which is read up to the size of the buffer. -/
def nicksOf (nicks : Str) : List Str := elements ',' (nicks.take bufSize)

/-- The nicks that are added, all before the first one for which the table is full. -/
def Table.added (t : Table) : List Str → List Str
  | [] => []
  | one :: nicks =>
    match t.addOne one with
    | some (t', false) => one :: t'.added nicks
    | _ => []

inductive Event where
  /-- `addNickJupes` -/
  | add (nicks : Str)
  /-- `clearNickJupes` -/
  | clear

/-- The table after a run, and the nicks that were added since it was empty. -/
def Table.run (t : Table) (since : List Str) : List Event → Option (Table × List Str)
  | [] => some (t, since)
  | .clear :: es => t.clearNickJupes.run [] es
  | .add nicks :: es =>
    match t.addNickJupes nicks with
    | none => none
    | some (t', _) => t'.run (since ++ t.added (nicksOf nicks)) es

/-- The table before anything is added. -/
def empty (crc : ℕ → ℕ) : Table := ⟨crc, fun _ => [], 0⟩

/-! ## The table -/

/-- The bucket `k` places behind that of the hash. -/
def Table.place (t : Table) (nick : Str) (k : ℕ) : ℕ := (strhash t.crc32hash nick + k) % jupeHashSize

/-- The buckets up to one that has the nick are taken. -/
def Table.Stored (t : Table) (nick : Str) : Prop :=
  ∃ k, (∀ j ≤ k, t.jupeTable (t.place nick j) ≠ []) ∧ strEq nick (t.jupeTable (t.place nick k)) = true

def Table.taken (t : Table) : Finset ℕ := (Finset.range jupeHashSize).filter fun p => t.jupeTable p ≠ []

/-- What holds of a table with the nicks that were added. -/
structure Table.Sound (t : Table) (since : List Str) : Prop where
  named : ∀ one ∈ since, one ≠ [] ∧ IsCStr one
  stored : ∀ one ∈ since, one.length ≤ nickLen → t.Stored one
  origin : ∀ p < jupeHashSize, t.jupeTable p ≠ [] → ∃ one ∈ since, t.jupeTable p = one.take nickLen
  count : t.taken.card = t.jupesCount
  room : t.jupesCount ≤ jupeMax

/-- A table keeps what is in another one. -/
structure Table.Keeps (t t' : Table) : Prop where
  crc : t'.crc32hash = t.crc32hash
  table : ∀ p, t.jupeTable p ≠ [] → t'.jupeTable p = t.jupeTable p

variable {t t' : Table} {since : List Str} {nick one : Str}

lemma jupeHashSize_pos : 0 < jupeHashSize := by decide

lemma Table.Keeps.refl (t : Table) : t.Keeps t := ⟨rfl, fun _ _ => rfl⟩

lemma Table.Keeps.trans {t'' : Table} (h : t.Keeps t') (h' : t'.Keeps t'') : t.Keeps t'' where
  crc := h'.crc.trans h.crc
  table p hp := by
    have heq := h.table p hp
    rw [h'.table p (heq ▸ hp), heq]

lemma Table.Stored.keep (hs : t.Stored nick) (h : t.Keeps t') : t'.Stored nick := by
  obtain ⟨k, hpath, hk⟩ := hs
  have hplace : t'.place nick = t.place nick := funext fun j => by rw [place, place, h.crc]
  refine ⟨k, fun j hj => ?_, ?_⟩
  · rw [hplace, h.table _ (hpath j hj)]
    exact hpath j hj
  · rw [hplace, h.table _ (hpath k le_rfl)]
    exact hk

lemma Table.Sound.exists_empty (h : t.Sound since) : ∃ q < jupeHashSize, t.jupeTable q = [] := by
  by_contra hfull
  push Not at hfull
  have hall : t.taken = Finset.range jupeHashSize :=
    Finset.filter_true_of_mem fun p hp => hfull p (Finset.mem_range.mp hp)
  have hcount := h.count
  have hroom := h.room
  rw [hall, Finset.card_range] at hcount
  rw [← hcount] at hroom
  exact absurd hroom (by decide)

/-- A loop ends at a bucket that has the nick, or at an empty one behind those that are searched. -/
lemma Table.Sound.probe_spec (h : t.Sound since) (nick : Str) : ∃ k, t.probe nick = some (t.place nick k) ∧
    t.stops nick (t.place nick k) = true ∧ ∀ j < k, t.stops nick (t.place nick j) = false := by
  obtain ⟨q, hq, hempty⟩ := h.exists_empty
  obtain ⟨p, hp⟩ := seek_ends hq (show t.stops nick q = true by simp [stops, hempty]) (strhash t.crc32hash nick)
  obtain ⟨k, rfl, hstop, hpass⟩ := seek_spec _ hp
  exact ⟨k, hp, hstop, hpass⟩

lemma stops_eq_false {pos : ℕ} : t.stops nick pos = false ↔
    t.jupeTable pos ≠ [] ∧ ¬strEq nick (t.jupeTable pos) = true := by simp [Table.stops]

lemma stored_of_ne {k : ℕ} (hstop : t.stops nick (t.place nick k) = true)
    (hpass : ∀ j < k, t.stops nick (t.place nick j) = false) (hne : t.jupeTable (t.place nick k) ≠ []) :
    t.Stored nick := by
  refine ⟨k, fun j hj => ?_, by simpa [Table.stops, hne] using hstop⟩
  rcases Nat.lt_or_eq_of_le hj with hj | rfl
  · exact (stops_eq_false.mp (hpass j hj)).1
  · exact hne

lemma Table.Sound.isNickJuped_iff (h : t.Sound since) (nick : Str) :
    ∃ b, t.isNickJuped nick = some b ∧ (b = true ↔ nick ≠ [] ∧ t.Stored nick) := by
  rw [isNickJuped]
  by_cases hnick : nick = []
  · exact ⟨false, if_pos hnick, iff_of_false Bool.false_ne_true fun h => h.1 hnick⟩
  · obtain ⟨k, hp, hstop, hpass⟩ := h.probe_spec nick
    refine ⟨_, by rw [if_neg hnick, hp]; rfl, ?_⟩
    rw [decide_eq_true_iff]
    refine ⟨fun hne => ⟨hnick, stored_of_ne hstop hpass hne⟩, ?_⟩
    rintro ⟨-, k', hpath, heq⟩
    refine hpath k (Nat.le_of_not_lt fun hlt => ?_)
    exact (stops_eq_false.mp (hpass k' hlt)).2 heq

lemma isCStr_take {s : Str} (h : IsCStr s) (n : ℕ) : IsCStr (s.take n) :=
  fun c hc => h c (List.mem_of_mem_take hc)

lemma Table.Stored.of_strEq (hs : t.Stored one) (h : t.Sound since) (hnick : IsCStr nick) (hone : IsCStr one)
    (heq : strEq nick one = true) : t.Stored nick := by
  have hplace : t.place nick = t.place one := funext fun j => by
    rw [place, place, strhash_congr _ ((strEq_iff hnick hone).mp heq)]
  obtain ⟨k, hpath, hk⟩ := hs
  obtain ⟨from', hfrom, htable⟩ := h.origin _ (Nat.mod_lt _ jupeHashSize_pos) (hpath k le_rfl)
  have hstr := htable ▸ isCStr_take (h.named from' hfrom).2 nickLen
  refine ⟨k, by rwa [hplace], ?_⟩
  rw [hplace]
  exact strEq_trans hnick hone hstr heq hk

lemma Table.Stored.origin (hs : t.Stored nick) (h : t.Sound since) :
    ∃ one ∈ since, strEq nick (one.take nickLen) = true := by
  obtain ⟨k, hpath, hk⟩ := hs
  obtain ⟨one, hone, htable⟩ := h.origin _ (Nat.mod_lt _ jupeHashSize_pos) (hpath k le_rfl)
  exact ⟨one, hone, htable ▸ hk⟩

/-! ## Adding -/

lemma mem_taken {p : ℕ} : p ∈ t.taken ↔ p < jupeHashSize ∧ t.jupeTable p ≠ [] := by simp [Table.taken]

lemma put_table (t : Table) (pos : ℕ) (one : Str) :
    (t.put pos one).jupeTable = update t.jupeTable pos (one.take nickLen) := rfl

lemma Table.Sound.put (h : t.Sound since) (hne : one ≠ []) (hone : IsCStr one) {k : ℕ}
    (hempty : t.jupeTable (t.place one k) = []) (hpass : ∀ j < k, t.stops one (t.place one j) = false)
    (hfull : t.jupesCount ≠ jupeMax) :
    t.Keeps (t.put (t.place one k) one) ∧ (t.put (t.place one k) one).Sound (since ++ [one]) := by
  obtain ⟨pos, hpos⟩ : ∃ pos, pos = t.place one k := ⟨_, rfl⟩
  have hlt : pos < jupeHashSize := hpos ▸ Nat.mod_lt _ jupeHashSize_pos
  rw [← hpos] at hempty ⊢
  have hfilled : one.take nickLen ≠ [] := by
    rw [Ne, List.take_eq_nil_iff]
    exact fun h => h.elim (by decide) hne
  have hkeeps : t.Keeps (t.put pos one) :=
    ⟨rfl, fun p hp => update_of_ne (fun heq => hp (by rw [heq, hempty])) _ _⟩
  refine ⟨hkeeps, ?_, fun x hx hlen => ?_, fun p hp hmem => ?_, ?_, Nat.lt_of_le_of_ne h.room hfull⟩
  · exact List.forall_mem_append.mpr ⟨h.named, List.forall_mem_singleton.mpr ⟨hne, hone⟩⟩
  · rcases List.mem_append.mp hx with hx | hx
    · exact (h.stored x hx hlen).keep hkeeps
    · obtain rfl := List.mem_singleton.mp hx
      refine ⟨k, fun j hj => ?_, ?_⟩
      · change (t.put pos x).jupeTable (t.place x j) ≠ []
        rcases Nat.lt_or_eq_of_le hj with hj | rfl
        · have hpath := (stops_eq_false.mp (hpass j hj)).1
          rwa [hkeeps.table _ hpath]
        · rwa [← hpos, put_table, update_self]
      · change strEq x ((t.put pos x).jupeTable (t.place x k)) = true
        rw [← hpos, put_table, update_self, List.take_of_length_le hlen, strEq_refl]
  · rw [put_table] at hmem ⊢
    by_cases hpp : p = pos
    · exact ⟨one, List.mem_append_right _ List.mem_cons_self, by rw [hpp, update_self]⟩
    · rw [update_of_ne hpp] at hmem ⊢
      obtain ⟨x, hx, htable⟩ := h.origin p hp hmem
      exact ⟨x, List.mem_append_left _ hx, htable⟩
  · have htaken : (t.put pos one).taken = insert pos t.taken := by
      ext p
      rw [Finset.mem_insert, mem_taken, mem_taken, put_table]
      by_cases hpp : p = pos
      · simp [hpp, hlt, hfilled]
      · simp [hpp]
    rw [htaken, Finset.card_insert_of_notMem (by simp [mem_taken, hempty]), h.count]
    rfl

/-- A nick is added unless the table is full. -/
lemma Table.Sound.addOne (h : t.Sound since) (hne : one ≠ []) (hone : IsCStr one) : ∃ t' e,
    t.addOne one = some (t', e) ∧ t.Keeps t' ∧ if e then t' = t else t'.Sound (since ++ [one]) := by
  obtain ⟨k, hp, hstop, hpass⟩ := h.probe_spec one
  rw [Table.addOne, hp, Option.map_some]
  by_cases hempty : t.jupeTable (t.place one k) = []
  · rw [if_pos hempty]
    by_cases hfull : t.jupesCount = jupeMax
    · exact ⟨t, true, by rw [if_pos hfull], .refl t, rfl⟩
    · obtain ⟨hkeeps, hsound⟩ := h.put hne hone hempty hpass hfull
      exact ⟨_, false, by rw [if_neg hfull], hkeeps, hsound⟩
  · rw [if_neg hempty]
    refine ⟨t, false, rfl, .refl t, ?_⟩
    refine { h with named := ?_, stored := fun x hx hlen => ?_, origin := fun p hp hmem => ?_ }
    · exact List.forall_mem_append.mpr ⟨h.named, List.forall_mem_singleton.mpr ⟨hne, hone⟩⟩
    · rcases List.mem_append.mp hx with hx | hx
      · exact h.stored x hx hlen
      · obtain rfl := List.mem_singleton.mp hx
        exact stored_of_ne hstop hpass hempty
    · obtain ⟨x, hx, htable⟩ := h.origin p hp hmem
      exact ⟨x, List.mem_append_left _ hx, htable⟩

/-- The nicks of a list are added, all or those before an error. -/
lemma Table.Sound.addLoop (temp : Str) (htemp : IsCStr temp) {t : Table} {since : List Str}
    (h : t.Sound since) : ∃ t' e, t.addLoop temp = some (t', e) ∧ t.Keeps t' ∧
      t'.Sound (since ++ t.added (elements ',' temp)) ∧
      (e = false ↔ t.added (elements ',' temp) = elements ',' temp) := by
  rw [Table.addLoop]
  split
  next htok =>
    rw [elements_strtok_none htok]
    exact ⟨t, false, rfl, .refl t, by simpa [added] using h, iff_of_true rfl rfl⟩
  next lead one p htok =>
    obtain ⟨hstr, -, hne, -⟩ := ircdStrtok_eq htok
    have hin : ∀ x ∈ elements ',' temp, IsCStr x := isCStr_elements htemp ','
    rw [elements_strtok htok] at hin ⊢
    obtain ⟨t', e, hadd, hkeeps, hsound⟩ := h.addOne hne (hin one List.mem_cons_self)
    rw [added, hadd]
    cases e with
    | true =>
      exact ⟨t', true, rfl, hkeeps, by rw [show t' = t from hsound]; simpa using h, by simp⟩
    | false =>
      have hnext : t'.Sound (since ++ [one]) := hsound
      cases p with
      | none => exact ⟨t', false, rfl, hkeeps, hnext, iff_of_true rfl rfl⟩
      | some rest =>
        have hlen : rest.length < temp.length := by
          rw [hstr]
          simp only [behind, List.length_append, List.length_cons]
          omega
        have hrest : IsCStr rest := fun c hc => htemp c (by simp [hstr, behind, hc])
        obtain ⟨t'', e, hloop, hkeeps', hsound', he⟩ := Table.Sound.addLoop rest hrest hnext
        refine ⟨t'', e, hloop, hkeeps.trans hkeeps', ?_, ?_⟩
        · rwa [List.append_assoc] at hsound'
        · exact he.trans (List.cons_inj_right one).symm
termination_by temp.length

lemma Table.Sound.addNickJupes (h : t.Sound since) {nicks : Str} (hnicks : IsCStr nicks) :
    ∃ t' e, t.addNickJupes nicks = some (t', e) ∧ t.Keeps t' ∧ t'.Sound (since ++ t.added (nicksOf nicks)) ∧
      (e = false ↔ t.added (nicksOf nicks) = nicksOf nicks) := by
  rw [Table.addNickJupes]
  by_cases hnil : nicks = []
  · subst hnil
    exact ⟨t, false, rfl, .refl t, by simpa [nicksOf, elements, added] using h, iff_of_true rfl rfl⟩
  · rw [if_neg hnil]
    exact Table.Sound.addLoop _ (isCStr_take hnicks _) h

lemma sound_of_empty (hempty : ∀ p < jupeHashSize, t.jupeTable p = []) (hcount : t.jupesCount = 0) :
    t.Sound [] where
  named _ h := absurd h List.not_mem_nil
  stored _ h := absurd h List.not_mem_nil
  origin p hp hne := absurd (hempty p hp) hne
  count := by
    rw [hcount, Finset.card_eq_zero]
    exact Finset.filter_false_of_mem fun p hp h => h (hempty p (Finset.mem_range.mp hp))
  room := by
    rw [hcount]
    exact Nat.zero_le _

lemma Table.Sound.run : (es : List Event) → ∀ {t : Table} {since : List Str}, t.Sound since →
    (∀ nicks, .add nicks ∈ es → IsCStr nicks) →
    ∃ t' since', t.run since es = some (t', since') ∧ t'.Sound since'
  | [], t, since, h, _ => ⟨t, since, rfl, h⟩
  | .clear :: es, t, since, h, hes =>
    Table.Sound.run es (sound_of_empty (fun _ hp => if_pos hp) rfl) fun nicks hm =>
      hes nicks (List.mem_cons_of_mem _ hm)
  | .add nicks :: es, t, since, h, hes => by
    obtain ⟨t', e, hadd, -, hsound, -⟩ := h.addNickJupes (hes nicks List.mem_cons_self)
    obtain ⟨t'', since'', hrun, hsound'⟩ := Table.Sound.run es hsound fun nicks hm =>
      hes nicks (List.mem_cons_of_mem _ hm)
    exact ⟨t'', since'', by rw [Table.run, hadd]; exact hrun, hsound'⟩

/-- **Juped nicks.** In every run the loops end. A nick that was added is juped when it is not too long, and one
that is juped is what the table holds of one that was added. A list of which not all are added gives an error,
and no jupe is lost. -/
theorem jupes_hold (crc : ℕ → ℕ) {es : List Event} (hes : ∀ nicks, .add nicks ∈ es → IsCStr nicks) :
    ∃ t since, (empty crc).run [] es = some (t, since) ∧
      (∀ nick, IsCStr nick → ∃ b, t.isNickJuped nick = some b ∧
        (∀ one ∈ since, one.length ≤ nickLen → strEq nick one = true → b = true) ∧
        (b = true → ∃ one ∈ since, strEq nick (one.take nickLen) = true)) ∧
      ∀ nicks, IsCStr nicks → ∃ t' e, t.addNickJupes nicks = some (t', e) ∧
        (e = false ↔ t.added (nicksOf nicks) = nicksOf nicks) ∧
        ∀ nick, t.isNickJuped nick = some true → t'.isNickJuped nick = some true := by
  obtain ⟨t, since, hrun, h⟩ := (sound_of_empty (t := empty crc) (fun _ _ => rfl) rfl).run es hes
  refine ⟨t, since, hrun, fun nick hnick => ?_, fun nicks hnicks => ?_⟩
  · obtain ⟨b, hb, hiff⟩ := h.isNickJuped_iff nick
    refine ⟨b, hb, fun one hone hlen heq => hiff.mpr ⟨?_, ?_⟩, fun htrue => (hiff.mp htrue).2.origin h⟩
    · rintro rfl
      cases one with
      | nil => exact (h.named _ hone).1 rfl
      | cons c cs =>
        have := (strEq_iff hnick (h.named _ hone).2).mp heq
        cases this
    · exact (h.stored one hone hlen).of_strEq h hnick (h.named one hone).2 heq
  · obtain ⟨t', e, hadd, hkeeps, hsound, he⟩ := h.addNickJupes hnicks
    refine ⟨t', e, hadd, he, fun nick hj => ?_⟩
    obtain ⟨b, hb, hiff⟩ := h.isNickJuped_iff nick
    obtain ⟨b', hb', hiff'⟩ := hsound.isNickJuped_iff nick
    obtain rfl : b = true := Option.some.inj (hb.symm.trans hj)
    obtain ⟨hne, hstored⟩ := hiff.mp rfl
    rw [hb', hiff'.mpr ⟨hne, hstored.keep hkeeps⟩]

theorem jupes_hold_example : ∃ t since, (empty crc32).run [] [.add "bob,Bob".toList, .clear] = some (t, since) ∧
    ∃ b, t.isNickJuped "bob".toList = some b ∧
      (b = true → ∃ one ∈ since, strEq "bob".toList (one.take nickLen) = true) := by
  have hes : ∀ nicks, Event.add nicks ∈ [Event.add "bob,Bob".toList, .clear] → IsCStr nicks := by
    simp only [List.mem_cons, List.not_mem_nil, reduceCtorEq, or_false, Event.add.injEq, forall_eq]
    decide
  obtain ⟨t, since, hrun, h, -⟩ := jupes_hold crc32 hes
  obtain ⟨b, hb, -, hsome⟩ := h "bob".toList (by decide)
  exact ⟨t, since, hrun, b, hb, hsome⟩

/-- A list is cut at the size of the buffer, and gives no error. -/
theorem jupes_cut :
    (empty crc32).addNickJupes (List.replicate bufSize ',' ++ "bob".toList) = some (empty crc32, false) ∧
    (empty crc32).isNickJuped "bob".toList = some false := by
  refine ⟨?_, ?_⟩
  · rw [Table.addNickJupes, if_neg (by simp), ircdStrncpy, if_neg (Nat.succ_ne_zero _), Nat.add_sub_cancel,
      List.take_left' List.length_replicate, Table.addLoop]
    split
    next => rfl
    next htok =>
      have hnone := elements_lead [] fun c hc => List.eq_of_mem_replicate (n := bufSize) (a := ',') hc
      rw [List.append_nil, elements_strtok htok] at hnone
      cases hnone
  · obtain ⟨b, hb, hiff⟩ :=
      (sound_of_empty (t := empty crc32) (fun _ _ => rfl) rfl).isNickJuped_iff "bob".toList
    cases b with
    | false => exact hb
    | true =>
      obtain ⟨-, k, hpath, -⟩ := hiff.mp rfl
      exact absurd rfl (hpath k le_rfl)

/-- **The table never holds more than it may.** After every run the count is the number of the buckets that are
taken, and no more than are allowed; and once the table is cleared, nobody is juped. -/
theorem jupes_bounded (crc : ℕ → ℕ) {es : List Event} (hes : ∀ nicks, .add nicks ∈ es → IsCStr nicks) :
    ∃ t since, (empty crc).run [] es = some (t, since) ∧ t.taken.card = t.jupesCount ∧ t.jupesCount ≤ jupeMax ∧
      ∀ nick, t.clearNickJupes.isNickJuped nick = some false := by
  obtain ⟨t, since, hrun, h⟩ := (sound_of_empty (t := empty crc) (fun _ _ => rfl) rfl).run es hes
  refine ⟨t, since, hrun, h.count, h.room, fun nick => ?_⟩
  have hclear : t.clearNickJupes.Sound [] := sound_of_empty (fun p hp => if_pos hp) rfl
  obtain ⟨b, hb, hiff⟩ := hclear.isNickJuped_iff nick
  cases b with
  | false => exact hb
  | true =>
    obtain ⟨one, hone, -⟩ := (hiff.mp rfl).2.origin hclear
    cases hone

theorem jupes_bounded_bob : ∃ t since, (empty crc32).run [] [.add "bob".toList] = some (t, since) ∧
    t.taken.card = t.jupesCount := by
  obtain ⟨t, since, hrun, hcount, -⟩ := @jupes_bounded crc32 [.add "bob".toList] (by
    simp only [List.mem_singleton, Event.add.injEq, forall_eq]
    decide)
  exact ⟨t, since, hrun, hcount⟩

end Nefarious.Jupes

import Nefarious.Capab
import Mathlib.Data.List.Pairwise

/-!
# A request is granted or refused as a whole

The elements of a list are its words (`elements`); a list of blanks only has one empty element.

Names: `m_cap.c`.
-/

namespace Nefarious.Capab

open Option (any_some not_mem_none some_inj some_ne_none)
open List (append_assoc append_nil dropWhile_sublist foldl_cons length_append mem_append mem_cons_self
  mem_singleton nil_append)

open Lib

/-! ## Elements -/

/-- The words of a text. `find_cap` (`IsSpace`). -/
def words (s : Str) : List Str := (s.splitOnP isSpace).filter (· ≠ [])

/-- The elements of a list, if there is a list. `find_cap`. -/
def elements : Option Str → List Str
  | none => []
  | some s => if words s = [] then [[]] else words s

/-- An element is negative. `find_cap` (`neg_p`). -/
def negated (e : Str) : Bool := e.head? = some '-'

/-- The name in an element. `find_cap`. -/
def nameOf (e : Str) : Str := if negated e then e.tail else e

/-- The capability of a name. `capab_list`. -/
def Caps.lookup (T : Caps) (name : Str) : Option Capability := T.list.find? (fun c => strEq name c.name)

/-- An element cannot be granted: it names no capability, sets a prohibited one or removes a sticky one. `cap_req` -/
def Refused (T : Caps) (e : Str) : Prop :=
  T.lookup (nameOf e) = none ∨ ∃ cap ∈ T.lookup (nameOf e),
    (negated e = false ∧ cap.prohibit = true) ∨ (negated e = true ∧ cap.sticky = true)

/-- An element is applied to a client. `cap_req`. -/
def applyElement (T : Caps) (c : Client) (e : Str) : Client :=
  match T.lookup (nameOf e) with
  | none => c
  | some cap => c.apply (negated e) cap

/-- What the last element for a capability asks for, if there is one. `cap_req`. -/
def lastAsked (T : Caps) (es : List Str) (cap : Cap) : Option Bool :=
  ((es.filter fun e => (T.lookup (nameOf e)).map (·.cap) = some cap).getLast?).map negated

/-- The acknowledgement of a request: the entries that some element is for, as the last one asks. `cap_req`, `send_caplist`. -/
def acknowledged (T : Caps) (table : List Capability) (es : List Str) : List Str :=
  (table.filter fun c => lastAsked T es c.cap ≠ none).map fun c =>
    (if lastAsked T es c.cap = some true then ['-'] else modifiers none c) ++ c.name

/-! ## Words -/

variable {c : Char} {w s : Str}

lemma words_cons_space (hc : isSpace c = true) (s : Str) : words (c :: s) = words s := by
  have hsplit := List.splitOnP_append_cons (p := isSpace) [] s hc
  rw [nil_append, List.splitOnP_nil] at hsplit
  rw [words, hsplit, List.singleton_append, List.filter_cons_of_neg (by simp)]
  rfl

lemma words_dropWhile : (s : Str) → words (s.dropWhile isSpace) = words s
  | [] => rfl
  | c :: s => by
    rw [List.dropWhile_cons]
    split
    · next hc => rw [words_dropWhile s, words_cons_space hc]
    · rfl

lemma words_append (hc : isSpace c = true) (s t : Str) : words (s ++ c :: t) = words s ++ words t := by
  rw [words, List.splitOnP_append_cons _ _ hc, List.filter_append]
  rfl

lemma words_of_word (hne : w ≠ []) (hw : ∀ c ∈ w, isSpace c = false) : words w = [w] := by
  rw [words, List.splitOnP_eq_singleton hw]
  simp [hne]

/-! ## Looking up a name -/

lemma charInt_toLower {b : Char} (hb : 32 < b.toNat ∧ b.toNat < 256) :
    32 < charInt (toLower b) ∨ charInt (toLower b) < 0 := by
  have hbyte : IsByte b := ⟨by omega, hb.2⟩
  obtain ⟨_, hlt⟩ := isByte_toLower hbyte
  have hlow : 32 < (toLower b).toNat := by
    rw [toNat_toLower]
    split <;> omega
  unfold charInt
  split <;> omega

lemma charInt_space (hc : isSpace c = true) : 0 < charInt (toLower c) ∧ charInt (toLower c) ≤ 32 := by
  have hnat : 9 ≤ c.toNat ∧ c.toNat ≤ 32 := by
    rcases of_decide_eq_true hc with rfl | h
    · decide
    · omega
  have hlow : (toLower c).toNat = c.toNat := by
    rw [toNat_toLower, if_neg (by omega)]
  unfold charInt
  split <;> omega

lemma capabSearch_word : {w rest : Str} → (name : Str) → (∀ c ∈ w, isSpace c = false) →
    (∀ c ∈ rest.head?, isSpace c = true) → (∀ c ∈ name, 32 < c.toNat ∧ c.toNat < 256) →
      (capabSearch (w ++ rest) name < 0 ↔ ircdStrcmp w name < 0) ∧
        (capabSearch (w ++ rest) name = 0 ↔ ircdStrcmp w name = 0)
  | [], [], [], _, _, _ => ⟨Iff.rfl, Iff.rfl⟩
  | [], [], b :: bs, _, _, _ => ⟨Iff.rfl, Iff.rfl⟩
  | [], c :: rest, [], _, hrest, _ => by
    have hc := hrest c rfl
    simp [capabSearch, ircdStrcmp, hc]
  | [], c :: rest, b :: bs, _, hrest, hname => by
    have hc := charInt_space (hrest c rfl)
    have hb := charInt_toLower (hname b mem_cons_self)
    have hne : toLower c ≠ toLower b := fun heq => by
      rw [heq] at hc
      omega
    simp only [nil_append, capabSearch, ircdStrcmp, if_neg hne]
    constructor <;> constructor <;> intro h <;> omega
  | a :: as, rest, [], hw, _, _ => by
    have ha := hw a mem_cons_self
    simp [capabSearch, ircdStrcmp, ha]
  | a :: as, rest, b :: bs, hw, hrest, hname => by
    simp only [List.cons_append, capabSearch, ircdStrcmp]
    split
    · exact capabSearch_word bs (fun c hc => hw c (List.mem_cons_of_mem _ hc)) hrest
        (fun c hc => hname c (List.mem_cons_of_mem _ hc))
    · exact ⟨Iff.rfl, Iff.rfl⟩

lemma Caps.init_perm (T : Caps) : T.init.list.Perm T.list := by
  unfold Caps.init
  split
  · exact List.Perm.refl _
  · exact List.perm_insertionSort CapabSort T.list

@[simp] lemma Caps.init_inited (T : Caps) : T.init.inited = true := by
  unfold Caps.init
  split
  · assumption
  · rfl

@[simp] lemma Caps.init_init (T : Caps) : T.init.init = T.init := by
  rw [Caps.init, if_pos T.init_inited]

lemma Caps.lookup_eq_some_iff {T : Caps} {name : Str} (hname : IsCStr name) {cap : Capability} :
    T.lookup name = some cap ↔ cap ∈ T.list ∧ strEq name cap.name = true := by
  constructor
  · exact fun h => ⟨List.mem_of_find?_eq_some h, List.find?_some (p := fun c : Capability => strEq name c.name) h⟩
  · rintro ⟨hmem, heq⟩
    cases hfind : T.lookup name with
    | none => exact absurd heq (List.find?_eq_none.1 hfind cap hmem)
    | some cap' =>
      have hmem' := List.mem_of_find?_eq_some hfind
      have heq' := List.find?_some (p := fun c : Capability => strEq name c.name) hfind
      congr 1
      by_contra hne
      have hsame : strEq cap'.name cap.name = true :=
        strEq_trans cap'.isCStr hname cap.isCStr ((strEq_comm _ _).trans heq') heq
      have hsymm : Std.Symm fun a b : Capability => strEq a.name b.name = false :=
        ⟨fun a b hab => (strEq_comm _ _).trans hab⟩
      have hdiff : strEq cap'.name cap.name = false := T.names.forall hmem' hmem hne
      exact absurd (hdiff.symm.trans hsame) Bool.false_ne_true

lemma bsearch_eq_lookup (T : Caps) {rest : Str} (hstr : IsCStr w) (hw : ∀ c ∈ w, isSpace c = false)
    (hrest : ∀ c ∈ rest.head?, isSpace c = true) :
    Bsearch.bsearch (fun c => capabSearch (w ++ rest) c.name) T.init.list = T.lookup w := by
  have hcmp : ∀ c : Capability, (capabSearch (w ++ rest) c.name < 0 ↔ ircdStrcmp w c.name < 0) ∧
      (capabSearch (w ++ rest) c.name = 0 ↔ ircdStrcmp w c.name = 0) :=
    fun c => capabSearch_word c.name hw hrest c.word
  have hord : Bsearch.Ordered (fun c : Capability => capabSearch (w ++ rest) c.name) T.init.list := by
    refine (T.init.sorted T.init_inited).imp fun {a b} hab hle => ?_
    have hle' : ircdStrcmp w a.name ≤ 0 := by
      rcases hle.lt_or_eq with hlt | heq
      · exact ((hcmp a).1.1 hlt).le
      · exact ((hcmp a).2.1 heq).le
    exact (hcmp b).1.2 (ircdStrcmp_lt_of_le_of_lt _ _ _ hstr a.isCStr b.isCStr hle' hab)
  ext cap
  rw [Bsearch.bsearch_eq_some_iff hord, T.lookup_eq_some_iff hstr, T.init_perm.mem_iff, (hcmp cap).2]
  simp only [strEq, decide_eq_true_eq]

/-! ## The cursor -/

lemma isSpace_head_dropWhile {p : Char → Bool} : (s : Str) → ∀ c ∈ (s.dropWhile p).head?, p c = false
  | [], _, h => absurd h (not_mem_none _)
  | a :: s, c, h => by
    rw [List.dropWhile_cons] at h
    split at h
    · exact isSpace_head_dropWhile s c h
    · next hp =>
        obtain rfl := some_inj.1 h
        exact Bool.eq_false_iff.2 hp

lemma Caps.lookup_nil (T : Caps) : T.lookup [] = none := by
  rw [Caps.lookup, List.find?_eq_none]
  intro cap _ heq
  have h0 : ircdStrcmp [] cap.name = 0 := of_decide_eq_true heq
  cases hname : cap.name with
  | nil => exact cap.name_ne hname
  | cons b bs =>
    have hb := charInt_toLower (cap.word b (hname ▸ mem_cons_self))
    rw [hname] at h0
    simp only [ircdStrcmp] at h0
    omega

lemma words_start (hne : s ≠ []) (hs : ∀ c ∈ s.head?, isSpace c = false) :
    words s = s.takeWhile (fun c => !isSpace c) :: words (s.dropWhile fun c => !isSpace c) := by
  have hw : ∀ c ∈ s.takeWhile (fun c => !isSpace c), isSpace c = false := fun c hc => by
    simpa using List.mem_takeWhile_imp hc
  have hne' : s.takeWhile (fun c => !isSpace c) ≠ [] := by
    cases s with
    | nil => exact absurd rfl hne
    | cons a s => simp [hs a rfl]
  have hrest := isSpace_head_dropWhile (p := fun c => !isSpace c) s
  conv_lhs => rw [← List.takeWhile_append_dropWhile (p := fun c => !isSpace c) (l := s)]
  generalize s.takeWhile (fun c => !isSpace c) = w at hw hne'
  generalize s.dropWhile (fun c => !isSpace c) = rest at hrest
  cases rest with
  | nil =>
    rw [append_nil, words_of_word hne' hw]
    rfl
  | cons c rest =>
    have hc : isSpace c = true := by simpa using hrest c rfl
    rw [words_append hc, words_of_word hne' hw, words_cons_space hc]
    rfl

lemma words_eq_nil_iff (hs : ∀ c ∈ s.head?, isSpace c = false) : words s = [] ↔ s = [] := by
  constructor
  · intro h
    by_contra hne
    rw [words_start hne hs] at h
    exact List.cons_ne_nil _ _ h
  · rintro rfl
    rfl

/-- What follows an element. `find_cap`. -/
def behind (rest : Str) : Option Str :=
  if rest.dropWhile isSpace = [] then none else some (rest.dropWhile isSpace)

lemma elements_behind (rest : Str) : elements (behind rest) = words rest := by
  have hhead := isSpace_head_dropWhile (p := isSpace) rest
  unfold behind
  split
  · next h =>
      rw [← words_dropWhile rest, h]
      rfl
  · next h =>
      have hne := mt (words_eq_nil_iff hhead).1 h
      rw [words_dropWhile] at hne
      simp only [elements, words_dropWhile, if_neg hne]

lemma elements_some (s : Str) : elements (some s) = (s.dropWhile isSpace).takeWhile (fun c => !isSpace c) ::
      elements (behind ((s.dropWhile isSpace).dropWhile fun c => !isSpace c)) := by
  have hhead := isSpace_head_dropWhile (p := isSpace) s
  rw [elements_behind]
  simp only [elements, ← words_dropWhile s]
  generalize s.dropWhile isSpace = start at hhead
  by_cases hne : start = []
  · subst hne
    rfl
  · rw [if_neg (mt (words_eq_nil_iff hhead).1 hne), words_start hne hhead]

lemma findCap_split (T : Caps) {e rest : Str} (hs : s.dropWhile isSpace = e ++ rest)
    (hstr : IsCStr e) (he : ∀ c ∈ e, isSpace c = false) (hrest : ∀ c ∈ rest.head?, isSpace c = true) :
    findCap T s = ⟨T.lookup (nameOf e), negated e, behind rest⟩ := by
  have hneg : (e ++ rest).head? = some '-' ↔ negated e = true := by
    unfold negated
    cases e with
    | cons a e => simp
    | nil =>
      refine ⟨fun h => ?_, fun h => absurd h Bool.false_ne_true⟩
      exact absurd (hrest '-' h) (by decide)
  have hname : (if negated e = true then (e ++ rest).tail else e ++ rest) = nameOf e ++ rest := by
    unfold nameOf
    cases e with
    | nil => rfl
    | cons a e => split <;> rfl
  have hsub : ∀ c ∈ nameOf e, c ∈ e := fun c hc => by
    unfold nameOf at hc
    split at hc
    · exact List.mem_of_mem_tail hc
    · exact hc
  have hcap : (if nameOf e ++ rest = [] then none
      else Bsearch.bsearch (fun c => capabSearch (nameOf e ++ rest) c.name) T.init.list) =
        T.lookup (nameOf e) := by
    split
    · next hnil => rw [(List.append_eq_nil_iff.1 hnil).1, T.lookup_nil]
    · exact bsearch_eq_lookup T (fun c hc => hstr c (hsub c hc)) (fun c hc => he c (hsub c hc)) hrest
  have hnone : (nameOf e ++ rest).dropWhile (fun c => !isSpace c) = rest := by
    rw [List.dropWhile_append_of_pos fun c hc => by simp [he c (hsub c hc)]]
    cases rest with
    | nil => rfl
    | cons c rest => simp [hrest c rfl]
  have hsome : ∀ cap, T.lookup (nameOf e) = some cap → (nameOf e ++ rest).drop cap.name.length = rest := by
    intro cap hlook
    have hcstr : IsCStr (nameOf e) := fun c hc => hstr c (hsub c hc)
    have heq := (strEq_iff hcstr cap.isCStr).1 ((T.lookup_eq_some_iff hcstr).1 hlook).2
    have hlen : (nameOf e).length = cap.name.length := by
      simpa using congrArg List.length heq
    rw [← hlen, List.drop_left]
  unfold findCap
  simp only [hs, hneg, hname, hcap, Bool.decide_eq_true]
  cases hlook : T.lookup (nameOf e) with
  | none =>
    simp only [hnone]
    rfl
  | some cap =>
    simp only [hsome cap hlook]
    rfl

lemma findCap_eq (T : Caps) (hstr : IsCStr s) : ∃ e next, elements (some s) = e :: elements next ∧
    findCap T s = ⟨T.lookup (nameOf e), negated e, next⟩ ∧ ∀ t ∈ next, IsCStr t ∧ t.length < s.length := by
  have hsplit := List.takeWhile_append_dropWhile (p := fun c => !isSpace c) (l := s.dropWhile isSpace)
  have hsub : ∀ c ∈ s.dropWhile isSpace, c ∈ s := fun c hc => (dropWhile_sublist _).subset hc
  refine ⟨_, _, elements_some s, findCap_split T hsplit.symm ?_ ?_ ?_, ?_⟩
  · exact fun c hc => hstr c (hsub c ((List.takeWhile_sublist _).subset hc))
  · exact fun c hc => by simpa using List.mem_takeWhile_imp hc
  · exact fun c hc => by simpa using isSpace_head_dropWhile _ c hc
  · intro t ht
    unfold behind at ht
    split at ht
    · exact absurd ht (not_mem_none _)
    · next hne =>
        obtain rfl := some_inj.1 ht
        constructor
        · exact fun c hc => hstr c (hsub c ((dropWhile_sublist _).subset
            ((dropWhile_sublist _).subset hc)))
        · have hhead := isSpace_head_dropWhile (p := isSpace) s
          have hlen := (dropWhile_sublist isSpace (l := s)).length_le
          generalize s.dropWhile isSpace = start at hne hhead hlen
          cases start with
          | nil => exact absurd rfl hne
          | cons a start =>
            have hle := (dropWhile_sublist isSpace (l := (a :: start).dropWhile fun c => !isSpace c)).length_le
            have hdrop := (dropWhile_sublist (fun c => !isSpace c) (l := start)).length_le
            rw [List.dropWhile_cons_of_pos (by simp [hhead a rfl])] at hle ⊢
            rw [List.length_cons] at hlen
            omega

/-- An element is applied to the changes so far. `cap_req`. -/
def Changes.applyElement (T : Caps) (c : Changes) (e : Str) : Changes :=
  match T.lookup (nameOf e) with
  | none => c
  | some cap => c.apply (negated e) cap

lemma reqLoop_eq (T : Caps) : (n : ℕ) → (U : Caps) → (c : Changes) → (cl : Option Str) →
    U.init = T.init → (∀ s ∈ cl, IsCStr s ∧ s.length + 2 ≤ n) → 1 ≤ n →
      ((∃ e ∈ elements cl, Refused T e) ∧ reqLoop n U c cl = some (none, T.init)) ∨
        ((∀ e ∈ elements cl, ¬ Refused T e) ∧ ∃ V : Caps, V.init = T.init ∧ (cl = none → V = U) ∧
          (cl ≠ none → V = T.init) ∧
          reqLoop n U c cl = some (some ((elements cl).foldl (Changes.applyElement T) c), V))
  | 0, _, _, _, _, _, h => absurd h (by decide)
  | n + 1, U, c, none, hU, _, _ =>
    .inr ⟨fun e he => absurd he List.not_mem_nil, U, hU, fun _ => rfl, fun h => absurd rfl h, rfl⟩
  | n + 1, U, c, some s, hU, hs, _ => by
    obtain ⟨hstr, hlen⟩ := hs s rfl
    obtain ⟨e, next, hel, hfind, hnext⟩ := findCap_eq T hstr
    have hfindU : findCap U s = findCap T s := by
      unfold findCap
      rw [hU]
    rw [hel]
    simp only [reqLoop, hfindU, hfind]
    cases hlook : T.lookup (nameOf e) with
    | none =>
      refine .inl ⟨⟨e, mem_cons_self, .inl hlook⟩, ?_⟩
      simp only [hU]
    | some cap =>
      simp only [hU]
      by_cases hbad : (negated e = false ∧ cap.prohibit = true) ∨ (negated e = true ∧ cap.sticky = true)
      · rw [if_pos hbad]
        exact .inl ⟨⟨e, mem_cons_self, .inr ⟨cap, hlook, hbad⟩⟩, rfl⟩
      · rw [if_neg hbad]
        have hfine : ¬ Refused T e := by
          rintro (hno | ⟨cap', hcap', h⟩)
          · exact absurd (hlook.symm.trans hno) (some_ne_none cap)
          · obtain rfl := some_inj.1 (hlook.symm.trans hcap')
            exact hbad h
        have happly : Changes.applyElement T c e = c.apply (negated e) cap := by
          rw [Changes.applyElement, hlook]
        have hbound : ∀ t ∈ next, IsCStr t ∧ t.length + 2 ≤ n := fun t ht =>
          ⟨(hnext t ht).1, by have hlt := (hnext t ht).2; omega⟩
        rcases reqLoop_eq T n T.init (c.apply (negated e) cap) next T.init_init hbound (by omega)
          with ⟨⟨e', he', href⟩, hloop⟩ | ⟨hnone, V, hV, hV0, hV1, hloop⟩
        · exact .inl ⟨⟨e', List.mem_cons_of_mem _ he', href⟩, hloop⟩
        · refine .inr ⟨?_, V, hV, fun h => absurd h (some_ne_none s), fun _ => ?_, ?_⟩
          · intro e' he'
            rcases List.mem_cons.1 he' with rfl | he'
            · exact hfine
            · exact hnone e' he'
          · by_cases hn : next = none
            · exact hV0 hn
            · exact hV1 hn
          · rw [hloop, foldl_cons, happly]

/-! ## The acknowledgement -/

lemma lastAsked_append (T : Caps) (es : List Str) (e : Str) (cap : Cap) : lastAsked T (es ++ [e]) cap =
      if (T.lookup (nameOf e)).map (·.cap) = some cap then some (negated e) else lastAsked T es cap := by
  unfold lastAsked
  rw [List.filter_append]
  by_cases h : (T.lookup (nameOf e)).map (·.cap) = some cap
  · rw [if_pos h, List.filter_cons_of_pos (by rw [h]; exact decide_eq_true rfl), List.filter_nil,
      List.getLast?_concat]
    rfl
  · rw [if_neg h, List.filter_singleton, decide_eq_false h, cond_false, append_nil]

lemma mem_foldl (T : Caps) (client : Client) (cap : Cap) (es : List Str) :
    (cap ∈ (es.foldl (Changes.applyElement T) ⟨∅, ∅, client⟩).set ↔ lastAsked T es cap = some false) ∧
      (cap ∈ (es.foldl (Changes.applyElement T) ⟨∅, ∅, client⟩).rem ↔ lastAsked T es cap = some true) := by
  induction es using List.reverseRecOn with
  | nil => exact ⟨iff_of_false (Finset.notMem_empty _) nofun, iff_of_false (Finset.notMem_empty _) nofun⟩
  | append_singleton es e ih =>
    rw [List.foldl_concat, lastAsked_append]
    generalize es.foldl (Changes.applyElement T) ⟨∅, ∅, client⟩ = c at ih
    unfold Changes.applyElement
    cases T.lookup (nameOf e) with
    | none => simpa using ih
    | some cap' =>
      by_cases hcap : cap'.cap = cap
      · cases hneg : negated e <;> simp [Changes.apply, hcap]
      · have hcap' : cap ≠ cap'.cap := fun h => hcap h.symm
        cases hneg : negated e <;> simp [Changes.apply, hcap, hcap', ih]

lemma foldl_client (T : Caps) (es : List Str) (c : Changes) :
    (es.foldl (Changes.applyElement T) c).client = es.foldl (applyElement T) c.client := by
  induction es generalizing c with
  | nil => rfl
  | cons e es ih =>
    rw [foldl_cons, foldl_cons, ih]
    congr 1
    unfold Changes.applyElement applyElement Changes.apply
    cases T.lookup (nameOf e) with
    | none => rfl
    | some cap => cases hneg : negated e <;> rfl

/-- The words of the lines so far and of the one that is being built. `send_caplist`. -/
def said (buf : List Str × Str) : List Str := buf.1.flatMap words ++ words buf.2

lemma modifiers_spec (rem : Option (Finset Cap)) (c : Capability) :
    (modifiers rem c).length ≤ 2 ∧ ∀ x ∈ modifiers rem c, isSpace x = false := by
  unfold modifiers
  split
  · exact ⟨by decide, by simp [isSpace]⟩
  · cases c.proto <;> cases c.sticky <;> simp [isSpace]

lemma words_add (hne : w ≠ []) (hw : ∀ c ∈ w, isSpace c = false) (line : Str) (b : Bool)
    (hb : b = false → line = []) : words (line ++ ((if b then [' '] else []) ++ w)) = words line ++ [w] := by
  cases b with
  | true =>
    change words (line ++ ' ' :: w) = _
    rw [words_append (by decide), words_of_word hne hw]
  | false =>
    rw [hb rfl]
    change words w = _
    rw [words_of_word hne hw]
    rfl

lemma putCap_spec {room : ℕ} (hroom : 69 ≤ room ∧ room ≤ 512) (rem : Option (Finset Cap))
    (buf : List Str × Str) (c : Capability) (hfit : ∀ l ∈ buf.1 ++ [buf.2], l.length ≤ room) :
    said (putCap room rem buf c) = said buf ++ [modifiers rem c ++ c.name] ∧
      ∀ l ∈ (putCap room rem buf c).1 ++ [(putCap room rem buf c).2], l.length ≤ room := by
  obtain ⟨lines, line⟩ := buf
  obtain ⟨hmods, hspace⟩ := modifiers_spec rem c
  have hword : ∀ x ∈ modifiers rem c ++ c.name, isSpace x = false := by
    intro x hx
    rcases mem_append.1 hx with hx | hx
    · exact hspace x hx
    · have hlow := c.word x hx
      refine decide_eq_false ?_
      rintro (rfl | h)
      · exact absurd hlow.1 (by decide)
      · omega
  have hne : modifiers rem c ++ c.name ≠ [] := fun h => c.name_ne (List.append_eq_nil_iff.1 h).2
  have hshort := c.short
  have hsep : ∀ b : Bool, ((if b then [' '] else []) : Str).length ≤ 1 := by decide
  have hpfx : ((if line = [] then [] else [' ']) : Str) = if !decide (line = []) then [' '] else [] := by
    by_cases h : line = [] <;> simp [h]
  unfold putCap said
  simp only [hpfx]
  generalize hb : (!decide (line = [])) = b
  have hb' : b = false → line = [] := fun h => by simpa [h] using hb
  have hlen := hsep b
  simp only [length_append]
  by_cases hlong : room < line.length + (c.name.length +
      (((if b then [' '] else []) : Str).length + (modifiers rem c).length)) + 2
  · simp only [if_pos hlong]
    rw [nil_append, append_assoc, List.take_of_length_le (by simp only [length_append]; omega)]
    have hadd := words_add hne hword [] b fun _ => rfl
    rw [nil_append] at hadd
    refine ⟨?_, fun l hl => ?_⟩
    · rw [hadd, List.flatMap_append, List.flatMap_singleton]
      rfl
    · rcases mem_append.1 hl with hl | hl
      · exact hfit l hl
      · obtain rfl := mem_singleton.1 hl
        simp only [length_append]
        omega
  · simp only [if_neg hlong]
    rw [append_assoc, List.take_of_length_le (by simp only [length_append]; omega)]
    refine ⟨?_, fun l hl => ?_⟩
    · rw [words_add hne hword line b hb', append_assoc]
    · rcases mem_append.1 hl with hl | hl
      · exact hfit l (List.mem_append_left _ hl)
      · obtain rfl := mem_singleton.1 hl
        simp only [length_append]
        omega

lemma words_sendCaplist (feature : Feature → Bool) (P : Peers) (T : Caps) (set rem : Option (Finset Cap))
    {subcmd : Str} (hsub : subcmd.length ≤ 8) : (sendCaplist feature P T set rem subcmd).flatMap words =
    (T.list.filter (listed feature set rem)).map (fun c => modifiers rem c ++ c.name) ∧
    ∀ l ∈ sendCaplist feature P T set rem subcmd, l.length ≤ bufleft P subcmd := by
  have hme := P.me_le
  have hnick := P.nick_le
  have hcap : (" CAP ".toList).length = 5 := by decide
  have hcolon : (" :".toList).length = 2 := by decide
  have hroom : 69 ≤ bufleft P subcmd ∧ bufleft P subcmd ≤ 512 := by
    unfold bufleft
    simp only [length_append, List.length_cons, hcap, hcolon]
    omega
  have hfold : ∀ (l : List Capability) (buf : List Str × Str),
      (∀ x ∈ buf.1 ++ [buf.2], x.length ≤ bufleft P subcmd) →
        said (l.foldl (putCap (bufleft P subcmd) rem) buf) =
            said buf ++ l.map (fun c => modifiers rem c ++ c.name) ∧
          ∀ x ∈ (l.foldl (putCap (bufleft P subcmd) rem) buf).1 ++
            [(l.foldl (putCap (bufleft P subcmd) rem) buf).2], x.length ≤ bufleft P subcmd := by
    intro l
    induction l with
    | nil => exact fun buf hbuf => ⟨(append_nil _).symm, hbuf⟩
    | cons c l ih =>
      intro buf hbuf
      obtain ⟨hsaid, hfit⟩ := putCap_spec hroom rem buf c hbuf
      obtain ⟨hsaid', hfit'⟩ := ih _ hfit
      refine ⟨?_, hfit'⟩
      rw [foldl_cons, hsaid', hsaid, append_assoc, List.map_cons, List.singleton_append]
  obtain ⟨hsaid, hfit⟩ := hfold (T.list.filter (listed feature set rem)) ([], []) fun x hx => by
    rw [mem_singleton.1 hx]
    exact Nat.zero_le _
  refine ⟨?_, hfit⟩
  unfold sendCaplist
  rw [List.flatMap_append, List.flatMap_singleton]
  exact hsaid

lemma words_ack (feature : Feature → Bool) (P : Peers) (T V : Caps) (client : Client) (es : List Str) :
    (sendCaplist feature P V (some (es.foldl (Changes.applyElement T) ⟨∅, ∅, client⟩).set)
        (some (es.foldl (Changes.applyElement T) ⟨∅, ∅, client⟩).rem) "ACK".toList).flatMap words =
      acknowledged T V.list es := by
  rw [(words_sendCaplist feature P V _ _ (by decide)).1, acknowledged]
  have hmem := fun cap => mem_foldl T client cap es
  generalize es.foldl (Changes.applyElement T) ⟨∅, ∅, client⟩ = c at hmem
  have hlisted : ∀ x : Capability, listed feature (some c.set) (some c.rem) x =
      decide (lastAsked T es x.cap ≠ none) := fun x => by
    obtain ⟨hset, hrem⟩ := hmem x.cap
    unfold listed
    simp only [any_some, hset, hrem, Option.isSome_some, Bool.true_or, Bool.not_true, Bool.or_false]
    cases lastAsked T es x.cap with
    | none => rfl
    | some b => cases b <;> rfl
  have hmods : ∀ x : Capability, modifiers (some c.rem) x =
      if lastAsked T es x.cap = some true then ['-'] else modifiers none x := fun x => by
    obtain ⟨hset, hrem⟩ := hmem x.cap
    unfold modifiers
    simp only [any_some, hrem, decide_eq_true_eq, Option.any_none, Bool.false_eq_true, if_false]
  rw [funext hlisted]
  simp only [hmods]

/-- **A request is granted or refused as a whole**: it ends; it is refused iff some element is, and then nothing
changes; otherwise the elements are applied from left to right, and the acknowledgement shows what has become of
the capabilities that they are for. -/
theorem capReq_eq (feature : Feature → Bool) (P : Peers) (T : Caps) (client : Client) (caplist : Option Str)
    (hstr : ∀ s ∈ caplist, IsCStr s) :
    ∃ client' T' reply, capReq feature P T client caplist = some (client', T', reply) ∧
      (((∃ e ∈ elements caplist, Refused T e) ∧ client' = client ∧ reply = .nak (caplist.getD [])) ∨
        ((∀ e ∈ elements caplist, ¬ Refused T e) ∧ client' = (elements caplist).foldl (applyElement T) client ∧
          ∃ lines, reply = .ack lines ∧ (∀ l ∈ lines, l.length ≤ bufleft P "ACK".toList) ∧
            lines.flatMap words = acknowledged T T'.list (elements caplist))) := by
  have hbound : ∀ s ∈ caplist, IsCStr s ∧ s.length + 2 ≤ (caplist.getD []).length + 2 := by
    rintro s rfl
    exact ⟨hstr s rfl, le_rfl⟩
  unfold capReq
  rcases reqLoop_eq T _ T ⟨∅, ∅, client⟩ caplist rfl hbound (by omega)
    with ⟨href, hloop⟩ | ⟨hnone, V, _, _, _, hloop⟩
  · rw [hloop]
    exact ⟨client, T.init, _, rfl, .inl ⟨href, rfl, rfl⟩⟩
  · rw [hloop]
    refine ⟨_, V, _, rfl, .inr ⟨hnone, foldl_client T _ _, _, rfl, ?_, ?_⟩⟩
    · exact (words_sendCaplist feature P V _ _ (by decide)).2
    · exact words_ack feature P T V client (elements caplist)

theorem capReq_eq_sasl :
    ∃ client' T' reply, capReq (fun _ => true) ⟨"irc.example.net".toList, "alice".toList, by decide, by decide⟩
        (Caps.start true) ⟨∅, ∅⟩ (some " sasl -tls".toList) = some (client', T', reply) ∧
      (((∃ e ∈ elements (some " sasl -tls".toList), Refused (Caps.start true) e) ∧ client' = ⟨∅, ∅⟩ ∧
          reply = .nak " sasl -tls".toList) ∨
        ((∀ e ∈ elements (some " sasl -tls".toList), ¬ Refused (Caps.start true) e) ∧
          client' = (elements (some " sasl -tls".toList)).foldl (applyElement (Caps.start true)) ⟨∅, ∅⟩ ∧
          ∃ lines, reply = .ack lines ∧ (∀ l ∈ lines, l.length ≤
              bufleft ⟨"irc.example.net".toList, "alice".toList, by decide, by decide⟩ "ACK".toList) ∧
            lines.flatMap words =
              acknowledged (Caps.start true) T'.list (elements (some " sasl -tls".toList)))) :=
  capReq_eq (fun _ => true) ⟨"irc.example.net".toList, "alice".toList, by decide, by decide⟩ (Caps.start true)
    ⟨∅, ∅⟩ (some " sasl -tls".toList) fun s hs => by
      obtain rfl := some_inj.1 hs
      decide

/-- What is not offered can be set. `cap_req`. -/
theorem capReq_not_offered : ¬ ∀ (feature : Feature → Bool) (P : Peers) (T : Caps) (client : Client) (caplist :
    Option Str), (∀ s ∈ caplist, IsCStr s) → ∃ client' T' reply, capReq feature P T client caplist =
    some (client', T', reply) ∧ (reply = .nak (caplist.getD []) ↔ ∃ e ∈ elements caplist, Refused T e ∨
    ∃ cap ∈ T.lookup (nameOf e), negated e = false ∧ ¬ Offered feature cap) := by
  intro hall
  let P : Peers := ⟨"irc.example.net".toList, "alice".toList, by decide, by decide⟩
  obtain ⟨client', T', reply, heq, hiff⟩ := hall (fun f => f ≠ .capMultiPrefix) P (Caps.start false) ⟨∅, ∅⟩
    (some "multi-prefix".toList) (by
      intro s hs
      obtain rfl := some_inj.1 hs
      decide)
  have hrun : (capReq (fun f => f ≠ .capMultiPrefix) P (Caps.start false) ⟨∅, ∅⟩
      (some "multi-prefix".toList)).map (·.2.2) = some (.ack ["multi-prefix".toList]) := by decide +kernel
  rw [heq] at hrun
  have hack : reply = .ack ["multi-prefix".toList] := some_inj.1 hrun
  have hoff : ((Caps.start false).lookup (nameOf "multi-prefix".toList)).any
      (fun c => !listed (fun f => f ≠ .capMultiPrefix) none none c) = true := by decide +kernel
  obtain ⟨cap, hcap, hno⟩ := (Option.any_eq_true _ _).1 hoff
  have hnak := hiff.2 ⟨"multi-prefix".toList, by decide +kernel, .inr ⟨cap, hcap, by decide, fun h => by
    rw [h] at hno
    exact Bool.false_ne_true hno⟩⟩
  exact Reply.noConfusion (hack.symm.trans hnak)

end Nefarious.Capab

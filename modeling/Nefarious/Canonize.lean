import Nefarious.Strings

/-!
# Lists without repetitions

Both functions cut a list at its separators; `canonize` cuts what it has kept as well, and puts each back.

Names: `ircd_string.c`.
-/

namespace Nefarious.Canonize

/-! ## The source functions -/

/-- The commas before the next token of a text, the token, and the text behind the comma that it is cut at, or
NULL. -/
def ircdStrtok (str : Str) : Option (Str × Str × Option Str) :=
  let pos := str.dropWhile (· = ',')
  if pos = [] then none
  else some (str.takeWhile (· = ','), pos.takeWhile (· ≠ ','),
    if pos.dropWhile (· ≠ ',') = [] then none else some (pos.dropWhile (· ≠ ',')).tail)

/-- The text from a pointer on that may be NULL, with the comma before it. -/
def behind : Option Str → Str
  | some rest => ',' :: rest
  | none => []

lemma behind_dropWhile (s : Str) : behind (if s.dropWhile (· ≠ ',') = [] then none
    else some (s.dropWhile (· ≠ ',')).tail) = s.dropWhile (· ≠ ',') := by
  split
  case isTrue h => exact h.symm
  case isFalse h =>
    have hhead := List.head?_dropWhile_not (· ≠ ',') s
    obtain ⟨c, r, hr⟩ := List.exists_cons_of_ne_nil h
    rw [hr] at hhead ⊢
    have hc : c = ',' := by simpa using hhead
    rw [behind, hc, List.tail_cons]

lemma ircdStrtok_eq {str lead t : Str} {p : Option Str} (h : ircdStrtok str = some (lead, t, p)) :
    str = lead ++ (t ++ behind p) ∧ (∀ c ∈ lead, c = ',') ∧ t ≠ [] ∧ ',' ∉ t := by
  rw [ircdStrtok] at h
  split at h
  case isTrue => cases h
  case isFalse hpos =>
    cases h
    refine ⟨?_, fun c hc => by simpa using List.mem_takeWhile_imp hc, fun ht => ?_, fun ht => ?_⟩
    · rw [behind_dropWhile, List.takeWhile_append_dropWhile, List.takeWhile_append_dropWhile]
    · have hhead := List.head?_dropWhile_not (· = ',') str
      obtain ⟨c, r, hr⟩ := List.exists_cons_of_ne_nil hpos
      rw [hr] at hhead ht
      rw [List.takeWhile_cons_of_pos (by simpa using hhead)] at ht
      exact List.cons_ne_nil _ _ ht
    · simpa using List.mem_takeWhile_imp ht

/-- The loop that looks for a token in what is kept. The comma that it has cut is put back, also behind `break`.
`canonize`. -/
def searchKept (s cbuf : Str) : Str × Bool :=
  match h : ircdStrtok cbuf with
  | none => (cbuf, false)
  | some (lead, t, none) => (lead ++ t, strEq s t)
  | some (lead, t, some rest) =>
    if strEq s t then (lead ++ (t ++ ',' :: rest), true)
    else (lead ++ (t ++ ',' :: (searchKept s rest).1), (searchKept s rest).2)
termination_by cbuf.length
decreasing_by all_goals
  rw [(ircdStrtok_eq h).1]
  simp only [behind, List.length_append, List.length_cons]
  omega

/-- The loop over the tokens, with what is kept, the place for the next one, and whether there is one; a list
fits the buffer. `canonize`. -/
def canonizeLoop (str cbuf : Str) (cp : ℕ) (l : Bool) : Str :=
  match h : ircdStrtok str with
  | none => cbuf
  | some (_, s, p) =>
    let found := if l then searchKept s cbuf else (cbuf, false)
    let cbuf := if found.2 then found.1
      else (if l then found.1.take (cp - 1) ++ [','] else found.1).take cp ++ s
    match p with
    | none => cbuf
    | some rest => canonizeLoop rest cbuf (if found.2 then cp else cp + (s.length + 1)) true
termination_by str.length
decreasing_by
  rw [(ircdStrtok_eq h).1]
  simp only [behind, List.length_append, List.length_cons]
  omega

/-- Rewrite a comma-delimited list of items to remove duplicates. -/
def canonize (buffer : Str) : Str := canonizeLoop buffer [] 0 false

/-- The loop over the names, of which the first one has no separator before it. `unique_name_vector`. -/
def uniqueLoop (token : Char) (size : ℕ) (start : Str) (vector : List Str) : List Str :=
  match h : start.dropWhile (· ≠ token) with
  | [] => if start = [] ∨ vector.any (strEq · start) then vector else vector ++ [start]
  | _ :: rest =>
    let name := start.takeWhile (· ≠ token)
    if vector.any (strEq · name) then uniqueLoop token size (rest.dropWhile (· = token)) vector
    else if vector.length + 1 = size then vector ++ [name]
    else uniqueLoop token size (rest.dropWhile (· = token)) (vector ++ [name])
termination_by start.length
decreasing_by all_goals
  have hlen := (List.dropWhile_suffix (p := (· ≠ token)) (l := start)).length_le
  rw [h, List.length_cons] at hlen
  exact Nat.lt_of_le_of_lt (List.dropWhile_suffix _).length_le hlen

/-- Distinct names of a list, with another separator than NUL. -/
def uniqueNameVector (names : Str) (token : Char) (size : ℕ) : List Str :=
  uniqueLoop token size (names.dropWhile (· = token)) []

/-! ## Lists without repetitions -/

/-- The elements of a list that are not empty. -/
def elements (token : Char) (list : Str) : List Str := (list.splitOn token).filter (· ≠ [])

/-- Of the names that are the same the first one. -/
def firsts : List Str → List Str
  | [] => []
  | x :: xs => x :: (firsts xs).filter fun y => !strEq x y

/-- A name is kept unless it is the same as one that is. -/
def keep (kept : List Str) (s : Str) : List Str := if kept.any (strEq · s) then kept else kept ++ [s]

lemma mem_of_mem_firsts {y : Str} : {xs : List Str} → y ∈ firsts xs → y ∈ xs
  | x :: xs, h => by
    rcases List.mem_cons.mp h with rfl | h
    · exact List.mem_cons_self
    · exact List.mem_cons_of_mem _ (mem_of_mem_firsts (List.mem_filter.mp h).1)

lemma foldl_keep : (xs : List Str) → ∀ {kept : List Str}, (∀ x ∈ xs, IsCStr x) → (∀ x ∈ kept, IsCStr x) →
    xs.foldl keep kept = kept ++ (firsts xs).filter fun y => !kept.any (strEq · y)
  | [], kept, _, _ => by simp [firsts]
  | x :: xs, kept, hxs, hkept => by
    obtain ⟨hx, hxs⟩ := List.forall_mem_cons.mp hxs
    rw [List.foldl_cons, keep, firsts]
    by_cases hany : kept.any (strEq · x) = true
    · rw [if_pos hany, foldl_keep xs hxs hkept, List.filter_cons_of_neg (by simp [hany]), List.filter_filter]
      congr 1
      refine List.filter_congr fun y hy => ?_
      cases hxy : strEq x y with
      | false => simp
      | true =>
        obtain ⟨t, ht, htx⟩ := List.any_eq_true.mp hany
        have hty := strEq_trans (hkept t ht) hx (hxs y (mem_of_mem_firsts hy)) htx hxy
        simpa using List.any_eq_true.mpr ⟨t, ht, hty⟩
    · have hall : ∀ t ∈ kept ++ [x], IsCStr t := fun t ht => by
        rcases List.mem_append.mp ht with ht | ht
        · exact hkept t ht
        · exact List.mem_singleton.mp ht ▸ hx
      rw [if_neg hany, foldl_keep xs hxs hall, List.filter_cons_of_pos (by simp [hany]), List.filter_filter,
        List.append_assoc]
      simp

lemma foldl_keep_nil {xs : List Str} (h : ∀ x ∈ xs, IsCStr x) : xs.foldl keep [] = firsts xs := by
  simp [foldl_keep xs h]

lemma mem_of_mem_splitOn {token c : Char} : {list : Str} → ∀ {x : Str}, x ∈ list.splitOn token → c ∈ x →
    c ∈ list
  | [], x, hx, hc => by
    rw [List.splitOn_nil, List.mem_singleton] at hx
    exact hx ▸ hc
  | d :: list, x, hx, hc => by
    rw [List.splitOn_cons_eq_if_modifyHead] at hx
    split at hx
    · rcases List.mem_cons.mp hx with rfl | hx
      · cases hc
      · exact List.mem_cons_of_mem _ (mem_of_mem_splitOn hx hc)
    · have ih : ∀ {y : Str}, y ∈ list.splitOn token → c ∈ y → c ∈ list := fun h h' => mem_of_mem_splitOn h h'
      cases hsplit : list.splitOn token with
      | nil => exact absurd hsplit (List.splitOn_ne_nil token list)
      | cons y ys =>
        rw [hsplit] at hx ih
        rcases List.mem_cons.mp hx with rfl | hx
        · rcases List.mem_cons.mp hc with rfl | hc
          · exact List.mem_cons_self
          · exact List.mem_cons_of_mem _ (ih List.mem_cons_self hc)
        · exact List.mem_cons_of_mem _ (ih (List.mem_cons_of_mem _ hx) hc)

lemma isCStr_elements {list : Str} (h : IsCStr list) (token : Char) : ∀ x ∈ elements token list, IsCStr x :=
  fun _ hx c hc => h c (mem_of_mem_splitOn (List.mem_filter.mp hx).1 hc)

lemma elements_append (token : Char) (xs as : Str) :
    elements token (xs ++ token :: as) = elements token xs ++ elements token as := by
  rw [elements, List.splitOn_append_cons_self, List.filter_append, elements, elements]

lemma elements_word {token : Char} {t : Str} (h : token ∉ t) (hne : t ≠ []) : elements token t = [t] := by
  rw [elements, List.splitOn_eq_singleton h]
  simp [hne]

lemma elements_lead {token : Char} (s : Str) : {lead : Str} → (∀ c ∈ lead, c = token) →
    elements token (lead ++ s) = elements token s
  | [], _ => rfl
  | c :: lead, h => by
    obtain ⟨rfl, h⟩ := List.forall_mem_cons.mp h
    rw [show (c :: lead) ++ s = [] ++ c :: (lead ++ s) from rfl, elements_append, elements_lead s h]
    simp [elements]

lemma elements_drop (token : Char) (s : Str) : elements token (s.dropWhile (· = token)) = elements token s := by
  have hlead : ∀ c ∈ s.takeWhile (· = token), c = token := fun c hc => by simpa using List.mem_takeWhile_imp hc
  rw [← elements_lead _ hlead, List.takeWhile_append_dropWhile]

lemma elements_strtok_none {str : Str} (h : ircdStrtok str = none) : elements ',' str = [] := by
  rw [ircdStrtok] at h
  split at h
  case isTrue hpos =>
    have hall := List.dropWhile_eq_nil_iff.mp hpos
    rw [← List.append_nil str, elements_lead [] fun c hc => by simpa using hall c hc]
    rfl
  case isFalse => cases h

lemma elements_strtok {str lead t : Str} {p : Option Str} (h : ircdStrtok str = some (lead, t, p)) :
    elements ',' str = t :: elements ',' (p.getD []) := by
  obtain ⟨hstr, hlead, hne, ht⟩ := ircdStrtok_eq h
  rw [hstr, elements_lead _ hlead]
  cases p with
  | none =>
    rw [behind, List.append_nil, elements_word ht hne]
    rfl
  | some rest =>
    rw [behind, elements_append, elements_word ht hne]
    rfl

/-! ## What is kept -/

/-- The search finds the elements that are kept, and leaves them as they are. -/
lemma searchKept_eq (s cbuf : Str) : searchKept s cbuf = (cbuf, (elements ',' cbuf).any (strEq s)) := by
  rw [searchKept]
  split
  next h =>
    rw [elements_strtok_none h]
    rfl
  next lead t h =>
    have hstr := (ircdStrtok_eq h).1
    rw [elements_strtok h]
    refine Prod.ext ?_ ?_
    · simpa [behind] using hstr.symm
    · simp [elements]
  next lead t rest h =>
    have hstr := (ircdStrtok_eq h).1
    have hlen : rest.length < cbuf.length := by
      rw [hstr]
      simp only [behind, List.length_append, List.length_cons]
      omega
    rw [searchKept_eq s rest, elements_strtok h, List.any_cons,
      show lead ++ (t ++ ',' :: rest) = cbuf from hstr.symm]
    cases strEq s t <;> rfl
termination_by cbuf.length

def joined (kept : List Str) : Str := [','].intercalate kept

/-- What is between the separators of the list. -/
def Words (kept : List Str) : Prop := ∀ x ∈ kept, x ≠ [] ∧ ',' ∉ x

lemma elements_joined : {kept : List Str} → Words kept → elements ',' (joined kept) = kept
  | [], _ => rfl
  | [x], h => by
    rw [joined, List.intercalate_singleton]
    exact elements_word (h x List.mem_cons_self).2 (h x List.mem_cons_self).1
  | x :: y :: kept, h => by
    obtain ⟨⟨hne, hx⟩, h⟩ := List.forall_mem_cons.mp h
    rw [joined, List.intercalate_cons_cons, List.append_assoc, List.singleton_append, elements_append,
      elements_word hx hne, ← joined, elements_joined h]
    rfl

lemma joined_append (s : Str) : {kept : List Str} → kept ≠ [] → joined (kept ++ [s]) = joined kept ++ ',' :: s
  | [x], _ => by simp [joined]
  | x :: y :: kept, _ => by
    have ih := joined_append s (List.cons_ne_nil y kept)
    simp only [joined, List.cons_append, List.intercalate_cons_cons] at ih ⊢
    rw [ih, List.append_assoc, List.append_assoc, List.append_assoc]

/-- The place for the next token behind what is kept. -/
def place (kept : List Str) : ℕ := if kept = [] then 0 else (joined kept).length + 1

/-- A token that is not found is put behind what is kept, and its place is known. -/
lemma joined_put (kept : List Str) (s : Str) :
    (if kept ≠ [] then (joined kept).take (place kept - 1) ++ [','] else joined kept).take (place kept) ++ s =
      joined (kept ++ [s]) ∧ place kept + (s.length + 1) = place (kept ++ [s]) := by
  by_cases hk : kept = []
  · subst hk
    simp [place, joined]
  · have hplace : place kept = (joined kept ++ [',']).length := by simp [place, hk]
    have hnext : place (kept ++ [s]) = (joined (kept ++ [s])).length + 1 := if_neg (by simp)
    rw [if_pos hk, joined_append s hk, hnext, joined_append s hk, hplace, List.length_append,
      List.length_singleton, Nat.add_sub_cancel, List.take_length]
    refine ⟨?_, ?_⟩
    · rw [List.take_of_length_le (by simp), List.append_assoc, List.singleton_append]
    · rw [List.length_append, List.length_cons]
      omega

/-- The loop over the tokens keeps each unless it is the same as one that is. -/
lemma canonizeLoop_eq (str : Str) {kept : List Str} (hkept : Words kept) :
    canonizeLoop str (joined kept) (place kept) (kept ≠ []) = joined ((elements ',' str).foldl keep kept) := by
  rw [canonizeLoop]
  split
  next h =>
    rw [elements_strtok_none h]
    rfl
  next lead s p h =>
    obtain ⟨hstr, -, hne, hs⟩ := ircdStrtok_eq h
    have hfound : (if decide (kept ≠ []) = true then searchKept s (joined kept) else (joined kept, false)) =
        (joined kept, kept.any (strEq · s)) := by
      have hany : kept.any (strEq · s) = kept.any (strEq s) :=
        congrArg kept.any (funext fun t => strEq_comm t s)
      by_cases hk : kept = []
      · simp [hk]
      · rw [if_pos (by simpa using hk), searchKept_eq, elements_joined hkept, hany]
    have hwords : Words (keep kept s) := by
      rw [keep]
      split
      · exact hkept
      · exact List.forall_mem_append.mpr ⟨hkept, List.forall_mem_singleton.mpr ⟨hne, hs⟩⟩
    obtain ⟨hput, hnext⟩ := joined_put kept s
    have hbuf : (if kept.any (strEq · s) = true then joined kept else (if decide (kept ≠ []) = true then
        (joined kept).take (place kept - 1) ++ [','] else joined kept).take (place kept) ++ s) =
        joined (keep kept s) := by
      rw [keep]
      split
      · rfl
      · simpa using hput
    have hplace : (if kept.any (strEq · s) = true then place kept else place kept + (s.length + 1)) =
        place (keep kept s) := by
      rw [keep]
      split
      · rfl
      · exact hnext
    rw [hfound, elements_strtok h, List.foldl_cons]
    simp only [hbuf, hplace]
    cases p with
    | none => rfl
    | some rest =>
      have hlen : rest.length < str.length := by
        rw [hstr]
        simp only [behind, List.length_append, List.length_cons]
        omega
      have hkeep : decide (keep kept s ≠ []) = true := by
        rw [keep]
        split
        case isTrue hany =>
          obtain ⟨t, ht, -⟩ := List.any_eq_true.mp hany
          simpa using List.ne_nil_of_mem ht
        case isFalse => simp
      have ih := canonizeLoop_eq rest hwords
      rwa [hkeep] at ih
termination_by str.length

lemma isPrefix_keep : (xs : List Str) → (kept : List Str) → kept <+: xs.foldl keep kept
  | [], _ => List.prefix_rfl
  | x :: xs, kept => by
    refine List.IsPrefix.trans ?_ (isPrefix_keep xs (keep kept x))
    rw [keep]
    split
    · exact List.prefix_rfl
    · exact List.prefix_append _ _

/-- The loop over the names stops when the vector is full. -/
lemma uniqueLoop_eq {token : Char} {size : ℕ} (start : Str) {vector : List Str}
    (hstart : start.head? ≠ some token) (hsize : vector.length < size) :
    uniqueLoop token size start vector = ((elements token start).foldl keep vector).take size := by
  rw [uniqueLoop]
  split
  next h =>
    have hmem : token ∉ start := fun hm => by simpa using List.dropWhile_eq_nil_iff.mp h token hm
    by_cases hnil : start = []
    · rw [if_pos (.inl hnil), hnil]
      exact (List.take_of_length_le hsize.le).symm
    · have hkeep : (if start = [] ∨ vector.any (strEq · start) = true then vector else vector ++ [start]) =
          keep vector start := by simp [hnil, keep]
      have hlen : (keep vector start).length ≤ size := by
        rw [keep]
        split
        · exact hsize.le
        · rwa [List.length_append, List.length_singleton]
      rw [hkeep, elements_word hmem hnil, List.foldl_cons, List.foldl_nil, List.take_of_length_le hlen]
  next c rest h =>
    have hc : c = token := by
      have hhead := List.head?_dropWhile_not (· ≠ token) start
      rw [h] at hhead
      simpa using hhead
    have hname : start = start.takeWhile (· ≠ token) ++ token :: rest := by
      rw [← hc, ← h, hc, List.takeWhile_append_dropWhile]
    have hmem : token ∉ start.takeWhile (· ≠ token) := fun hm => by simpa using List.mem_takeWhile_imp hm
    have hne : start.takeWhile (· ≠ token) ≠ [] := fun hnil => hstart (by rw [hname, hnil]; rfl)
    have hnext : (rest.dropWhile (· = token)).head? ≠ some token := fun h => by
      have hhead := List.head?_dropWhile_not (· = token) rest
      simp [h] at hhead
    have hdec : (rest.dropWhile (· = token)).length < start.length := by
      have := (List.dropWhile_suffix (p := (· = token)) (l := rest)).length_le
      rw [hname, List.length_append, List.length_cons]
      omega
    have helems : elements token start = start.takeWhile (· ≠ token) :: elements token rest := by
      conv_lhs => rw [hname]
      rw [elements_append, elements_word hmem hne]
      rfl
    rw [helems, List.foldl_cons, ← elements_drop, keep]
    dsimp only
    split
    · exact uniqueLoop_eq _ hnext hsize
    · split
      · next hfull =>
        have htake := List.prefix_iff_eq_take.mp (isPrefix_keep (elements token (rest.dropWhile (· = token)))
          (vector ++ [start.takeWhile (· ≠ token)]))
        rwa [List.length_append, List.length_singleton, hfull] at htake
      · refine uniqueLoop_eq _ hnext ?_
        rw [List.length_append, List.length_singleton]
        omega
termination_by start.length

/-- **No repetitions.** `canonize` keeps the first of the elements that are the same, and `unique_name_vector`
puts as many of these into its vector as it has places. -/
theorem canonize_unique {list : Str} (h : IsCStr list) :
    canonize list = [','].intercalate (firsts (elements ',' list)) ∧
    ∀ token size, 0 < size → uniqueNameVector list token size = (firsts (elements token list)).take size := by
  refine ⟨?_, fun token size hsize => ?_⟩
  · rw [← foldl_keep_nil (isCStr_elements h ',')]
    exact @canonizeLoop_eq list [] fun _ hx => absurd hx List.not_mem_nil
  · rw [← foldl_keep_nil (isCStr_elements h token), ← elements_drop, uniqueNameVector]
    refine uniqueLoop_eq _ (fun hhead => ?_) hsize
    have hnot := List.head?_dropWhile_not (· = token) list
    simp [hhead] at hnot

theorem canonize_unique_example :
    canonize "a,,B,A".toList = [','].intercalate (firsts (elements ',' "a,,B,A".toList)) :=
  (canonize_unique (by decide)).1

lemma pairwise_firsts : (xs : List Str) → (firsts xs).Pairwise fun x y => strEq x y = false
  | [] => .nil
  | x :: xs => List.pairwise_cons.mpr
    ⟨fun y hy => by simpa using (List.mem_filter.mp hy).2, (pairwise_firsts xs).filter _⟩

lemma foldl_keep_apart : (xs : List Str) → ∀ {kept : List Str},
    (kept ++ xs).Pairwise (fun x y => strEq x y = false) → xs.foldl keep kept = kept ++ xs
  | [], kept, _ => (List.append_nil kept).symm
  | x :: xs, kept, h => by
    have hnone : kept.any (strEq · x) = false := by
      rw [List.any_eq_false]
      intro t ht
      simpa using (List.pairwise_append.mp h).2.2 t ht x List.mem_cons_self
    have hkeep : keep kept x = kept ++ [x] := by rw [keep, if_neg (by simp [hnone])]
    rw [List.append_cons] at h
    rw [List.foldl_cons, hkeep, foldl_keep_apart xs h, ← List.append_cons]

lemma exists_mem_firsts {x : Str} : {xs : List Str} → (∀ y ∈ xs, IsCStr y) → x ∈ xs →
    ∃ y ∈ firsts xs, strEq y x = true
  | z :: xs, h, hx => by
    rcases List.mem_cons.mp hx with rfl | hx
    · exact ⟨x, List.mem_cons_self, strEq_refl x⟩
    obtain ⟨hz, h⟩ := List.forall_mem_cons.mp h
    obtain ⟨y, hy, hyx⟩ := exists_mem_firsts h hx
    by_cases hzy : strEq z y = true
    · exact ⟨z, List.mem_cons_self, strEq_trans hz (h y (mem_of_mem_firsts hy)) (h x hx) hzy hyx⟩
    · exact ⟨y, List.mem_cons_of_mem _ (List.mem_filter.mpr ⟨hy, by simpa using hzy⟩), hyx⟩

lemma words_elements (s : Str) : Words (elements ',' s) := by
  cases h : ircdStrtok s with
  | none =>
    rw [elements_strtok_none h]
    exact fun _ hx => (by cases hx)
  | some r =>
    obtain ⟨lead, t, p⟩ := r
    obtain ⟨hstr, -, hne, ht⟩ := ircdStrtok_eq h
    rw [elements_strtok h]
    refine List.forall_mem_cons.mpr ⟨⟨hne, ht⟩, ?_⟩
    cases p with
    | none => exact fun _ hx => (by cases hx)
    | some rest =>
      have hlen : rest.length < s.length := by
        rw [hstr]
        simp only [behind, List.length_append, List.length_cons]
        omega
      exact words_elements rest
termination_by s.length

/-- **A list without repetitions is left as it is**, and such a list is what `canonize` makes of any list: its
elements are of that list, no two of them are the same, and none is missing. -/
theorem canonize_canonize {list : Str} (h : IsCStr list) : canonize (canonize list) = canonize list ∧
    (elements ',' (canonize list)).Pairwise (fun x y => strEq x y = false) ∧
    (∀ x ∈ elements ',' (canonize list), x ∈ elements ',' list) ∧
    ∀ x ∈ elements ',' list, ∃ y ∈ elements ',' (canonize list), strEq y x = true := by
  have hloop : ∀ s, canonize s = joined ((elements ',' s).foldl keep []) := fun s =>
    @canonizeLoop_eq s [] fun _ hx => absurd hx List.not_mem_nil
  have hcstr := isCStr_elements h ','
  have hwords : Words (firsts (elements ',' list)) := fun x hx => words_elements list x (mem_of_mem_firsts hx)
  have helems : elements ',' (canonize list) = firsts (elements ',' list) := by
    rw [hloop, foldl_keep_nil hcstr, elements_joined hwords]
  have hapart := pairwise_firsts (elements ',' list)
  rw [hloop (canonize list), helems, foldl_keep_apart _ hapart, hloop list, foldl_keep_nil hcstr]
  exact ⟨rfl, hapart, fun x hx => mem_of_mem_firsts hx, fun x hx => exists_mem_firsts hcstr hx⟩

theorem canonize_canonize_example : canonize (canonize "b,,A,a".toList) = canonize "b,,A,a".toList :=
  (canonize_canonize (by decide)).1

end Nefarious.Canonize

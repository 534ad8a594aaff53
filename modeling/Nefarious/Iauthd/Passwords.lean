import Nefarious.Iauthd.Text
import Mathlib.Data.List.Nodup

/-!
# The password store

The users file of `iauthd-ts` has lines `name:hash`.

Names: `sasl.ts`.
-/

namespace Nefarious.Iauthd.Passwords

open List (map_cons mem_cons mem_cons_self mem_map not_mem_nil)

/-! ## Hashes -/

/-- The digests. `sasl.ts` (`createHash`). -/
structure Digests where
  sha256 : List UInt8 → List UInt8
  sha512 : List UInt8 → List UInt8
  md5 : List UInt8 → List UInt8

/-- Supported hash types. -/
inductive HashType
  | sha256
  | sha512
  | md5
  | plain
  deriving DecidableEq

/-- A stored hash in its parts. `parseHashType`. -/
structure ParsedHash where
  type : HashType
  salt : Str
  /-- The digest, or the password itself. -/
  hash : Str

/-- A stored hash that begins with a mark and has four parts. `parseHashType`. -/
def parseMarked (mark : Str) (type : HashType) (hash : Str) : Option ParsedHash :=
  if mark.isPrefixOf hash then
    match hash.splitOn '$' with
    | _ :: _ :: salt :: digest :: _ => some ⟨type, salt, digest⟩
    | _ => none
  else none

/-- Parse a crypt-style hash to determine type and extract salt. -/
def parseHashType (hash : Str) : Option ParsedHash :=
  (parseMarked "$5$".toList .sha256 hash).or <|
    (parseMarked "$6$".toList .sha512 hash).or <|
      (parseMarked "$1$".toList .md5 hash).or <|
        if hash.head? ≠ some '$' then some ⟨.plain, [], hash⟩ else none

/-- `replace(/=+$/, '')`. `sha256Crypt`. -/
def stripPadding (s : Str) : Str := (s.reverse.dropWhile (· = '=')).reverse

/-- The digest of the salt and the password, and rounds over it and the password. `sha256Crypt`, `sha512Crypt`,
`md5Crypt`. -/
def crypt (digest : List UInt8 → List UInt8) (rounds : ℕ) (password salt : Str) : Str :=
  stripPadding (base64 ((fun h => digest (h ++ octets password))^[rounds]
    (digest (octets (salt ++ password)))))

/-- Generate a SHA-256 crypt-style hash. -/
def sha256Crypt (D : Digests) (password salt : Str) : Str := crypt D.sha256 5000 password salt

/-- Generate a SHA-512 crypt-style hash. -/
def sha512Crypt (D : Digests) (password salt : Str) : Str := crypt D.sha512 5000 password salt

def md5Crypt (D : Digests) (password salt : Str) : Str := crypt D.md5 1000 password salt

/-- The hash that a password is compared by. `verifyPassword` (`computedHash`). -/
def computedHash (D : Digests) (password salt : Str) : HashType → Str
  | .sha256 => sha256Crypt D password salt
  | .sha512 => sha512Crypt D password salt
  | .md5 => md5Crypt D password salt
  | .plain => password

/-- Verify a password against a stored hash. -/
def verifyPassword (D : Digests) (password storedHash : Str) : Bool :=
  match parseHashType storedHash with
  | none => false
  | some parsed => octets (computedHash D password parsed.salt parsed.type) = octets parsed.hash

/-- The salt that is drawn from some random octets. `generateHash` (`randomBytes`). -/
def drawSalt (random : List UInt8) : Str :=
  ((base64 random).filter (· ∉ ['+', '/', '='])).take 16

def generateHash (D : Digests) (random : List UInt8) (password : Str) : HashType → Str
  | .sha256 => "$5$".toList ++ drawSalt random ++ '$' :: sha256Crypt D password (drawSalt random)
  | .sha512 => "$6$".toList ++ drawSalt random ++ '$' :: sha512Crypt D password (drawSalt random)
  | .md5 => "$1$".toList ++ drawSalt random ++ '$' :: md5Crypt D password (drawSalt random)
  | .plain => password

/-! ## The users file -/

/-- User entry from the users file. -/
structure UserEntry where
  username : Str
  passwordHash : Str
  deriving DecidableEq

/-- One line. `lower` is the lower-casing of names. `parseUsersFile`. -/
def parseLine (lower : Str → Str) (users : Str → Option UserEntry) (line : Str) : Str → Option UserEntry :=
  let trimmed := trimWhiteSpace line
  if trimmed = [] ∨ trimmed.head? = some '#' then users
  else if ':' ∉ trimmed then users
  else
    let username := lower (trimmed.takeWhile (· ≠ ':'))
    let passwordHash := (trimmed.dropWhile (· ≠ ':')).tail
    if username ≠ [] ∧ passwordHash ≠ [] then
      Function.update users username (some ⟨username, passwordHash⟩)
    else users

/-- Parse a users file; a file that cannot be read has no users. -/
def parseUsersFile (lower : Str → Str) (content : Option Str) : Str → Option UserEntry :=
  match content with
  | none => fun _ => none
  | some content => (content.splitOn '\n').foldl (parseLine lower) (fun _ => none)

/-- Authenticate a user with SASL PLAIN. -/
def authenticatePlain (D : Digests) (lower : Str → Str) (users : Str → Option UserEntry)
    (authcid password : Str) : Option Str :=
  match users (lower authcid) with
  | none => none
  | some user => if verifyPassword D password user.passwordHash then some user.username else none

/-- A user that a line can hold: a lower-cased name that is not empty, has no colon, does not begin with `#`,
and a stored hash, on one line and without white space at the ends. `parseUsersFile` -/
structure Storable (lower : Str → Str) (user : UserEntry) : Prop where
  name_ne : user.username ≠ []
  lower : lower user.username = user.username
  colon : ':' ∉ user.username
  comment : user.username.head? ≠ some '#'
  name_line : '\n' ∉ user.username
  name_trim : trimWhiteSpace user.username = user.username
  hash_line : '\n' ∉ user.passwordHash
  hash_trim : trimWhiteSpace user.passwordHash = user.passwordHash

/-- The line of a user. `tools/iauthd-ts/users.example`. -/
def userLine (user : UserEntry) : Str := user.username ++ ':' :: user.passwordHash

/-- The file of some users, with an end of line behind the last one or without. `tools/iauthd-ts/users.example`. -/
def usersFile (users : List UserEntry) (endLine : Bool) : Str :=
  ['\n'].intercalate (users.map userLine ++ if endLine then [[]] else [])

/-- The users by name. `UsersDB`. -/
def usersMap (users : List UserEntry) (name : Str) : Option UserEntry :=
  users.find? (·.username = name)

/-- Some users that a file can hold. -/
structure Storables (lower : Str → Str) (users : List UserEntry) : Prop where
  storable : ∀ user ∈ users, Storable lower user
  nodup : (users.map (·.username)).Nodup

/-- The password is itself a marked hash, and one of itself. `parseHashType`. -/
def IsOwnHash (D : Digests) (password : Str) : Prop :=
  ∃ parsed, parseHashType password = some parsed ∧ parsed.type ≠ .plain ∧
    octets (computedHash D password parsed.salt parsed.type) = octets parsed.hash

/-- The condition on a password and a type. `parseHashType` ("no $ prefix"). -/
def Verifiable (D : Digests) (password : Str) (type : HashType) : Prop :=
  type = .plain → password.head? ≠ some '$' ∨ IsOwnHash D password

/-! ## Marked hashes -/

lemma dollar_notMem_crypt (digest : List UInt8 → List UInt8) (rounds : ℕ) (password salt : Str) :
    '$' ∉ crypt digest rounds password salt := by
  intro h
  unfold crypt stripPadding at h
  rw [List.mem_reverse] at h
  have hmem := List.mem_reverse.1 ((List.dropWhile_suffix _).subset h)
  rcases mem_base64 _ _ hmem with h | h
  · exact absurd h (by decide)
  · exact absurd h (by decide)

lemma dollar_notMem_drawSalt (random : List UInt8) : '$' ∉ drawSalt random := by
  intro h
  have hmem := List.mem_of_mem_filter (List.mem_of_mem_take h)
  rcases mem_base64 _ _ hmem with h | h
  · exact absurd h (by decide)
  · exact absurd h (by decide)

variable {k : Char} {lower : Str → Str}

lemma splitOn_marked (hk : k ≠ '$') {salt digest : Str} (hsalt : '$' ∉ salt) (hdigest : '$' ∉ digest) :
    (['$', k, '$'] ++ salt ++ '$' :: digest).splitOn '$' = [[], [k], salt, digest] := by
  have hlist : ['$', k, '$'] ++ salt ++ '$' :: digest = ['$'].intercalate [[], [k], salt, digest] := by
    simp [List.intercalate]
  rw [hlist, List.splitOn_intercalate]
  · intro l hl
    simp only [mem_cons, not_mem_nil, or_false] at hl
    rcases hl with rfl | rfl | rfl | rfl
    · exact not_mem_nil
    · rw [List.mem_singleton]
      exact fun h => hk h.symm
    · exact hsalt
    · exact hdigest
  · exact List.cons_ne_nil _ _

lemma parseMarked_of_ne {j : Char} (h : j ≠ k) (type : HashType) (rest : Str) :
    parseMarked ['$', j, '$'] type (['$', k, '$'] ++ rest) = none := by
  rw [parseMarked, if_neg]
  simp [List.isPrefixOf, h]

lemma parseMarked_self (hk : k ≠ '$') (type : HashType) {salt digest : Str}
    (hsalt : '$' ∉ salt) (hdigest : '$' ∉ digest) :
    parseMarked ['$', k, '$'] type (['$', k, '$'] ++ salt ++ '$' :: digest) = some ⟨type, salt, digest⟩ := by
  rw [parseMarked, if_pos, splitOn_marked hk hsalt hdigest]
  rw [List.isPrefixOf_iff_prefix, List.append_assoc]
  exact List.prefix_append _ _

lemma parseHashType_generateHash (D : Digests) (random : List UInt8) (password : Str) {type : HashType}
    (h : type ≠ .plain) : parseHashType (generateHash D random password type) = some ⟨type, drawSalt random,
    computedHash D password (drawSalt random) type⟩ := by
  have hsalt := dollar_notMem_drawSalt random
  have hother : ∀ {j k : Char} (_ : j ≠ k) (type : HashType) (digest : Str),
      parseMarked ['$', j, '$'] type (['$', k, '$'] ++ drawSalt random ++ '$' :: digest) = none := by
    intro j k hjk type digest
    rw [List.append_assoc]
    exact parseMarked_of_ne hjk type _
  cases type with
  | plain => exact absurd rfl h
  | sha256 =>
    have hself := parseMarked_self (k := '5') (by decide) .sha256 hsalt
      (dollar_notMem_crypt D.sha256 5000 password (drawSalt random))
    unfold parseHashType generateHash sha256Crypt
    rw [show "$5$".toList = ['$', '5', '$'] from rfl, hself]
    rfl
  | sha512 =>
    have hself := parseMarked_self (k := '6') (by decide) .sha512 hsalt
      (dollar_notMem_crypt D.sha512 5000 password (drawSalt random))
    unfold parseHashType generateHash sha512Crypt
    rw [show "$5$".toList = ['$', '5', '$'] from rfl, show "$6$".toList = ['$', '6', '$'] from rfl,
      hother (by decide), hself]
    rfl
  | md5 =>
    have hself := parseMarked_self (k := '1') (by decide) .md5 hsalt
      (dollar_notMem_crypt D.md5 1000 password (drawSalt random))
    unfold parseHashType generateHash md5Crypt
    rw [show "$5$".toList = ['$', '5', '$'] from rfl, show "$6$".toList = ['$', '6', '$'] from rfl,
      show "$1$".toList = ['$', '1', '$'] from rfl, hother (by decide), hother (by decide), hself]
    rfl

lemma parseHashType_plain {s : Str} (h : s.head? ≠ some '$') : parseHashType s = some ⟨.plain, [], s⟩ := by
  have hnone : ∀ k type, parseMarked ['$', k, '$'] type s = none := by
    intro k type
    rw [parseMarked, if_neg]
    intro hp
    obtain ⟨t, rfl⟩ := List.isPrefixOf_iff_prefix.1 hp
    exact h rfl
  have h5 := hnone '5' .sha256
  have h6 := hnone '6' .sha512
  have h1 := hnone '1' .md5
  unfold parseHashType
  rw [show "$5$".toList = ['$', '5', '$'] from rfl, show "$6$".toList = ['$', '6', '$'] from rfl,
    show "$1$".toList = ['$', '1', '$'] from rfl, h5, h6, h1, if_pos h]
  rfl

lemma type_ne_plain {s : Str} (h : s.head? = some '$') {parsed : ParsedHash}
    (hp : parseHashType s = some parsed) : parsed.type ≠ .plain := by
  have hmarked : ∀ mark type, parseMarked mark type s = some parsed → parsed.type = type := by
    intro mark type hm
    unfold parseMarked at hm
    split at hm
    · split at hm
      · obtain rfl := Option.some_inj.1 hm
        rfl
      · cases hm
    · cases hm
  unfold parseHashType at hp
  rw [if_neg (not_not.2 h)] at hp
  simp only [Option.or_eq_some_iff] at hp
  rcases hp with h0 | ⟨-, h0 | ⟨-, h0 | ⟨-, h0⟩⟩⟩
  · rw [hmarked _ _ h0]; decide
  · rw [hmarked _ _ h0]; decide
  · rw [hmarked _ _ h0]; decide
  · cases h0

/-- **A password passes against its own hash** iff the type is a marked one, or the password does not begin with
`$`, or is itself a marked hash of itself. -/
theorem verifyPassword_generateHash (D : Digests) (random : List UInt8) (password : Str) (type : HashType) :
    verifyPassword D password (generateHash D random password type) = true ↔ Verifiable D password type := by
  by_cases htype : type = .plain
  · subst htype
    unfold verifyPassword Verifiable
    rw [show generateHash D random password .plain = password from rfl]
    by_cases hhead : password.head? = some '$'
    · constructor
      · intro h _
        split at h
        · cases h
        · next parsed hp => exact .inr ⟨parsed, hp, type_ne_plain hhead hp, of_decide_eq_true h⟩
      · intro h
        rcases h rfl with h | ⟨parsed, hp, -, heq⟩
        · exact absurd hhead h
        · rw [hp]
          exact decide_eq_true heq
    · rw [parseHashType_plain hhead]
      exact ⟨fun _ _ => .inl hhead, fun _ => decide_eq_true rfl⟩
  · unfold verifyPassword
    rw [parseHashType_generateHash D random password htype]
    exact ⟨fun _ h => absurd h htype, fun _ => decide_eq_true rfl⟩

/-! ## Lines -/

lemma Storable.trim_userLine {user : UserEntry} (h : Storable lower user) :
    trimWhiteSpace (userLine user) = userLine user := by
  obtain ⟨hname, -⟩ := (trimWhiteSpace_eq_self_iff _).1 h.name_trim
  obtain ⟨-, hhash⟩ := (trimWhiteSpace_eq_self_iff _).1 h.hash_trim
  rw [trimWhiteSpace_eq_self_iff]
  constructor
  · rw [userLine, List.head?_append_of_ne_nil _ h.name_ne]
    exact hname
  · cases hlast : user.passwordHash with
    | nil =>
      intro c hc
      rw [userLine, hlast, List.getLast?_concat] at hc
      obtain rfl := Option.some_inj.1 hc
      decide
    | cons a t =>
      rw [userLine, List.getLast?_append_of_ne_nil _ (List.cons_ne_nil _ _), hlast,
        List.getLast?_cons_cons, ← hlast]
      exact hhash

lemma split_colon {name : Str} (h : ':' ∉ name) (rest : Str) : (name ++ ':' :: rest).takeWhile (· ≠ ':') =
    name ∧ (name ++ ':' :: rest).dropWhile (· ≠ ':') = ':' :: rest := by
  have hne : ∀ c ∈ name, decide (c ≠ ':') = true := fun c hc =>
    decide_eq_true fun heq => h (heq ▸ hc)
  rw [List.takeWhile_append_of_pos hne, List.dropWhile_append_of_pos hne]
  simp

lemma Storable.parseLine {lower : Str → Str} {user : UserEntry} (h : Storable lower user)
    (users : Str → Option UserEntry) :
    parseLine lower users (userLine user) =
      if user.passwordHash = [] then users else Function.update users user.username (some user) := by
  have hhead : (userLine user).head? = user.username.head? := List.head?_append_of_ne_nil _ h.name_ne
  have hcolon : ':' ∈ userLine user := List.mem_append_right _ mem_cons_self
  obtain ⟨htake, hdrop⟩ := split_colon h.colon user.passwordHash
  unfold Passwords.parseLine
  dsimp only
  rw [h.trim_userLine, if_neg, if_neg (not_not.2 hcolon)]
  · unfold userLine
    rw [htake, hdrop, List.tail_cons, h.lower]
    by_cases hhash : user.passwordHash = []
    · rw [if_neg (fun hc => hc.2 hhash), if_pos hhash]
    · rw [if_pos ⟨h.name_ne, hhash⟩, if_neg hhash]
  · rintro (hc | hc)
    · exact absurd (hc ▸ hcolon) not_mem_nil
    · exact h.comment (hhead.symm.trans hc)

lemma parseUsersFile_usersFile {users : List UserEntry} (h : ∀ user ∈ users, Storable lower user)
    (endLine : Bool) : parseUsersFile lower (some (usersFile users endLine)) =
    (users.map userLine).foldl (parseLine lower) (fun _ => none) := by
  have hline : ∀ l ∈ users.map userLine ++ (if endLine then [[]] else []), '\n' ∉ l := by
    intro l hl
    rcases List.mem_append.1 hl with hl | hl
    · obtain ⟨user, huser, rfl⟩ := mem_map.1 hl
      intro hc
      rcases List.mem_append.1 hc with hc | hc
      · exact (h user huser).name_line hc
      · rcases mem_cons.1 hc with hc | hc
        · exact absurd hc (by decide)
        · exact (h user huser).hash_line hc
    · split at hl
      · rw [List.mem_singleton.1 hl]
        exact not_mem_nil
      · exact absurd hl not_mem_nil
  unfold parseUsersFile usersFile
  dsimp only
  by_cases hnil : users.map userLine ++ (if endLine then [[]] else []) = []
  · rw [hnil, (List.append_eq_nil_iff.1 hnil).1]
    rfl
  · rw [List.splitOn_intercalate _ hline hnil, List.foldl_append]
    cases endLine with
    | false => rfl
    | true => rfl

lemma foldl_parseLine {lower : Str → Str} : (users : List UserEntry) →
    (∀ user ∈ users, Storable lower user) → (users.map (·.username)).Nodup →
    ∀ (m : Str → Option UserEntry) (name : Str), (users.map userLine).foldl (parseLine lower) m name =
        match users.find? (fun user => user.username = name ∧ user.passwordHash ≠ []) with
        | some user => some user
        | none => m name
  | [], _, _, _, _ => rfl
  | user :: users, h, hnodup, m, name => by
    rw [map_cons, List.nodup_cons] at hnodup
    have hrest := foldl_parseLine users (fun u hu => h u (List.mem_cons_of_mem _ hu)) hnodup.2
    rw [map_cons, List.foldl_cons, (h user mem_cons_self).parseLine, hrest]
    by_cases hname : user.username = name ∧ user.passwordHash ≠ []
    · -- no other line has this name
      have hnone : users.find? (fun u => u.username = name ∧ u.passwordHash ≠ []) = none := by
        rw [List.find?_eq_none]
        intro u hu hc
        refine hnodup.1 (mem_map.2 ⟨u, hu, ?_⟩)
        exact (of_decide_eq_true hc).1.trans hname.1.symm
      rw [List.find?_cons, decide_eq_true hname, hnone]
      dsimp only
      rw [if_neg hname.2, ← hname.1]
      exact Function.update_self ..
    · rw [List.find?_cons, decide_eq_false hname]
      have hkeep : (if user.passwordHash = [] then m else
          Function.update m user.username (some user)) name = m name := by
        split_ifs with hhash
        · rfl
        · exact Function.update_of_ne (fun hc => hname ⟨hc.symm, hhash⟩) _ _
      rw [hkeep]

lemma usersMap_of_mem {users : List UserEntry} (hnodup : (users.map (·.username)).Nodup)
    {user : UserEntry} (h : user ∈ users) : usersMap users user.username = some user := by
  unfold usersMap
  rcases hfind : users.find? (·.username = user.username) with _ | found
  · exact absurd (decide_eq_true rfl) (List.find?_eq_none.1 hfind user h)
  · have hname : found.username = user.username := of_decide_eq_true (List.find?_some hfind :)
    rw [hfind, List.inj_on_of_nodup_map hnodup (List.mem_of_find?_eq_some hfind) h hname]

lemma Storables.lookup {users : List UserEntry} (h : Storables lower users)
    (endLine : Bool) {user : UserEntry} (huser : user ∈ users) :
    parseUsersFile lower (some (usersFile users endLine)) user.username =
      if user.passwordHash = [] then none else some user := by
  rw [parseUsersFile_usersFile h.storable, foldl_parseLine users h.storable h.nodup]
  rcases hfind : users.find? (fun u => u.username = user.username ∧ u.passwordHash ≠ []) with _ | found
  · have hnot := List.find?_eq_none.1 hfind user huser
    simp only [true_and, decide_not, Bool.not_eq_true', decide_eq_false_iff_not, not_not] at hnot
    rw [hfind, if_pos hnot]
  · obtain ⟨hname, hhash⟩ : found.username = user.username ∧ found.passwordHash ≠ [] :=
      of_decide_eq_true (List.find?_some hfind :)
    obtain rfl := List.inj_on_of_nodup_map h.nodup (List.mem_of_find?_eq_some hfind) huser hname
    rw [hfind, if_neg hhash]

/-- **The lines of some users give back exactly these users** iff no stored hash is empty. -/
theorem parseUsersFile_eq_iff {users : List UserEntry} (h : Storables lower users)
    (endLine : Bool) : parseUsersFile lower (some (usersFile users endLine)) = usersMap users ↔ ∀ user ∈ users,
    user.passwordHash ≠ [] := by
  constructor
  · intro heq user huser hnil
    have hlookup := h.lookup endLine huser
    rw [heq, usersMap_of_mem h.nodup huser, if_pos hnil] at hlookup
    exact absurd hlookup (Option.some_ne_none user)
  · intro hne
    funext name
    by_cases hname : ∃ user ∈ users, user.username = name
    · obtain ⟨user, huser, rfl⟩ := hname
      rw [h.lookup endLine huser, if_neg (hne user huser), usersMap_of_mem h.nodup huser]
    · have hnone : ∀ p : UserEntry → Bool, (∀ u, p u = true → u.username = name) → users.find? p = none := by
        intro p hp
        rw [List.find?_eq_none]
        exact fun u hu hpu => hname ⟨u, hu, hp u hpu⟩
      rw [parseUsersFile_usersFile h.storable, foldl_parseLine users h.storable h.nodup,
        hnone _ fun u hu => (of_decide_eq_true hu).1]
      exact (hnone _ fun u hu => of_decide_eq_true hu).symm

lemma authenticatePlain_iff (D : Digests) {users : List UserEntry}
    (h : Storables lower users) (endLine : Bool) {user : UserEntry} (huser : user ∈ users) {authcid : Str}
    (hname : lower authcid = user.username) {random : List UInt8} {password : Str} {type : HashType}
    (hhash : user.passwordHash = generateHash D random password type) :
    authenticatePlain D lower (parseUsersFile lower (some (usersFile users endLine))) authcid password =
    some user.username ↔ user.passwordHash ≠ [] ∧ Verifiable D password type := by
  unfold authenticatePlain
  rw [hname, h.lookup endLine huser, ← verifyPassword_generateHash D random, ← hhash]
  by_cases hnil : user.passwordHash = []
  · rw [if_pos hnil]
    exact ⟨fun hc => absurd hc (by simp), fun hc => absurd hnil hc.1⟩
  · rw [if_neg hnil]
    dsimp only
    by_cases hv : verifyPassword D password user.passwordHash = true
    · rw [if_pos hv]
      exact ⟨fun _ => ⟨hnil, hv⟩, fun _ => rfl⟩
    · rw [if_neg hv]
      exact ⟨fun hc => absurd hc (by simp), fun hc => absurd hc.2 hv⟩

/-- **The password store**: a password passes against its own hash iff it is `Verifiable`; the lines of some
users give back exactly these users iff no stored hash is empty; and a user is accepted with the password iff
both hold. -/
theorem store_iff (D : Digests) (lower : Str → Str) : (∀ random password type,
    verifyPassword D password (generateHash D random password type) = true ↔ Verifiable D password type) ∧
    ∀ users endLine, Storables lower users → (parseUsersFile lower (some (usersFile users endLine)) =
    usersMap users ↔ ∀ user ∈ users, user.passwordHash ≠ []) ∧ ∀ user ∈ users, ∀ authcid random password type,
    lower authcid = user.username → user.passwordHash = generateHash D random password type →
    (authenticatePlain D lower (parseUsersFile lower (some (usersFile users endLine))) authcid password =
    some user.username ↔ user.passwordHash ≠ [] ∧ Verifiable D password type) :=
  ⟨verifyPassword_generateHash D, fun _ endLine h => ⟨parseUsersFile_eq_iff h endLine,
    fun _ huser _ _ _ _ hname hhash => authenticatePlain_iff D h endLine huser hname hhash⟩⟩

/-! ## Two users -/

/-- Digests that give back what they are given. -/
def copies : Digests := ⟨id, id, id⟩

/-- The users of the sample file and one without a password. `tools/iauthd-ts/users.example`. -/
def sampleUsers : List UserEntry :=
  [⟨"testuser".toList, "testpass".toList⟩, ⟨"guest".toList, []⟩]

lemma storables_sampleUsers : Storables (List.map Char.toLower) sampleUsers where
  storable := by
    intro user huser
    simp only [sampleUsers, mem_cons, not_mem_nil, or_false] at huser
    rcases huser with rfl | rfl
    · constructor <;> decide
    · constructor <;> decide
  nodup := by decide

/-- **The sample user is accepted** with the plain password. -/
theorem store_iff_testuser : authenticatePlain copies (List.map Char.toLower)
      (parseUsersFile (List.map Char.toLower) (some (usersFile sampleUsers true))) "TestUser".toList
      "testpass".toList = some "testuser".toList := by
  have hstore := ((store_iff copies (List.map Char.toLower)).2 sampleUsers true storables_sampleUsers).2
  refine (hstore ⟨"testuser".toList, "testpass".toList⟩ mem_cons_self _ [] _ .plain (by decide) rfl).2
    ⟨by decide, fun _ => .inl (by decide)⟩

/-- **Two round trips that fail**: a plain password that begins with `$` does not pass against its own hash, and
a user with an empty stored hash is not in the file. -/
theorem plain_dollar_fails :
    (∀ D random, verifyPassword D "$ecret".toList (generateHash D random "$ecret".toList .plain) =
        false) ∧
      parseUsersFile (List.map Char.toLower) (some (usersFile sampleUsers true)) ≠
        usersMap sampleUsers := by
  refine ⟨fun D random => rfl, fun h => ?_⟩
  have hguest := congrFun h "guest".toList
  have hnone : parseUsersFile (List.map Char.toLower) (some (usersFile sampleUsers true))
      "guest".toList = none := by decide +kernel
  rw [hnone] at hguest
  exact absurd hguest (by decide +kernel)

end Nefarious.Iauthd.Passwords

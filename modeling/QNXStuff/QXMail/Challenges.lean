import QNXStuff.QXMail.Hashes
import QNXStuff.QXMail.Smtp

/-! The answer to a challenge: the keyed digest that the server builds in the buffer of the
session. -/

namespace QNXStuff.QXMail

open Memory Digests

/-! ### The buffer -/

/-- The first 64 bytes of the buffer: the password, zeros behind it, and all of them changed. A long
password goes on behind them. -/
def writeKey (buffer : Block) (password : List UInt8) (change : UInt8) : Block :=
  let cleared := writeBytes buffer 0 (List.replicate 64 0)
  let copied := writeBytes cleared 0 password
  fun i => if i < 64 then copied i ^^^ change else copied i

/-- "build CRAM-MD5 hash" in a buffer with anything in it. -/
def buildHash (buffer : Block) (password greeting : List UInt8) : List UInt8 :=
  let inner := writeBytes (writeKey buffer password 0x36) 64 greeting
  let myhash := md5Bin (readBytes inner 0 (greeting.length + 64))
  let outer := writeBytes (writeKey inner password 0x5c) 64 myhash
  getMD5 (readBytes outer 0 80)

/-- What is in the first 64 bytes does not depend on what was there before. -/
theorem readBytes_writeKey (buffer : Block) (password : List UInt8) (change : UInt8) :
    readBytes (writeKey buffer password change) 0 64 =
      ((password ++ List.replicate 64 0).take 64).map (· ^^^ change) := by
  refine List.ext_getElem (by simp) fun place inside _ => ?_
  rw [readBytes_length] at inside
  have zero (rest : Nat) : (List.replicate 64 (0 : UInt8)).getD rest 0 = 0 := by
    by_cases few : rest < 64
    · exact List.getD_replicate _ few
    · exact List.getD_eq_default _ _ (by simpa using few)
  have byte : ((password ++ List.replicate 64 0).take 64)[place]? =
      some (if place < password.length then password.getD place 0 else 0) := by
    rw [List.getElem?_take_of_lt inside]
    by_cases early : place < password.length
    · rw [if_pos early, List.getElem?_append_left early, List.getD_eq_getElem?_getD,
        List.getElem?_eq_getElem early, Option.getD_some]
    · rw [if_neg early, List.getElem?_append_right (Nat.not_lt.mp early),
        List.getElem?_replicate, if_pos (by omega)]
  have byte := List.getElem?_eq_some_iff.mp byte
  obtain ⟨_, byte⟩ := byte
  simp only [readBytes, List.getElem_map, List.getElem_range, byte, writeKey, Nat.zero_add,
    if_pos inside, writeBytes, Nat.zero_le, true_and, Nat.sub_zero, List.length_replicate, zero]

theorem readBytes_keyed (buffer : Block) (password text : List UInt8) (change : UInt8) :
    readBytes (writeBytes (writeKey buffer password change) 64 text) 0 (64 + text.length) =
      ((password ++ List.replicate 64 0).take 64).map (· ^^^ change) ++ text := by
  have key : readBytes (writeBytes (writeKey buffer password change) 64 text) 0 64 =
      readBytes (writeKey buffer password change) 0 64 :=
    readBytes_writeBytes_outside (.inl (by decide))
  rw [readBytes_append, Nat.zero_add, readBytes_writeBytes, key, readBytes_writeKey]

theorem md5Bin_length (buf : List UInt8) : (md5Bin buf).length = 16 := by
  simp [md5Bin, wordBytes]

/-- Nothing that was in the buffer before gets into the hash. -/
theorem buildHash_eq (buffer : Block) (password greeting : List UInt8) :
    buildHash buffer password greeting = cramHash password greeting := by
  have inner := readBytes_keyed buffer password greeting 0x36
  rw [Nat.add_comm] at inner
  unfold buildHash cramHash
  simp only
  rw [inner]
  have outer := readBytes_keyed (writeBytes (writeKey buffer password 0x36) 64 greeting) password
    (md5Bin (((password ++ List.replicate 64 0).take 64).map (· ^^^ 0x36) ++ greeting)) 0x5c
  rw [md5Bin_length] at outer
  rw [outer]

/-! ### The keyed digest -/

theorem hexDigits_eq (byte : UInt8) :
    [hexDigit (byte >>> 4), hexDigit (byte &&& 15)] =
      [hexadecimal.digit (byte.toNat / 16), hexadecimal.digit (byte.toNat % 16)] := by
  have all : ∀ value < 256,
      [hexDigit (UInt8.ofNat value >>> 4), hexDigit (UInt8.ofNat value &&& 15)] =
        [hexadecimal.digit (value / 16), hexadecimal.digit (value % 16)] := by
    decide +kernel
  have this := all byte.toNat byte.toNat_lt
  rwa [UInt8.ofNat_toNat] at this

theorem getMD5_eq (buf : List UInt8) : getMD5 buf = hexadecimal (md5Bin buf) := by
  simp only [getMD5, hexadecimal, hexDigits_eq]

/-- The first 64 bytes of a password and zeros are the key of a short password. -/
theorem key_eq {password : List UInt8} (short : password.length ≤ 64) :
    (password ++ List.replicate 64 0).take 64 =
      password ++ List.replicate (64 - password.length) 0 := by
  rw [List.take_append, List.take_of_length_le short, List.take_replicate,
    Nat.min_eq_left (Nat.sub_le _ _)]

theorem cramHash_short {password greeting : List UInt8} (short : password.length ≤ 64)
    (fits : greeting.length + 64 < 2 ^ 29) :
    cramHash password greeting = hexadecimal (hmac md5 password greeting) := by
  have size : ∀ change : UInt8,
      ((password ++ List.replicate (64 - password.length) 0).map (· ^^^ change)).length = 64 := by
    intro change
    rw [List.length_map, List.length_append, List.length_replicate]
    omega
  have inner : md5Bin ((password ++ List.replicate (64 - password.length) 0).map (· ^^^ 0x36) ++
      greeting) = md5 ((password ++ List.replicate (64 - password.length) 0).map (· ^^^ 0x36) ++
        greeting) := by
    refine md5Bin_eq ?_
    rw [List.length_append, size]
    omega
  have outer : ((password ++ List.replicate (64 - password.length) 0).map (· ^^^ 0x5c) ++
      md5Bin ((password ++ List.replicate (64 - password.length) 0).map (· ^^^ 0x36) ++
        greeting)).length < 2 ^ 29 := by
    rw [List.length_append, size, md5Bin_length]
    decide
  simp only [cramHash, hmac, key_eq short, getMD5_eq, if_neg (Nat.not_lt.mpr short)]
  rw [md5Bin_eq outer, inner]

/-- Of a long password the first 64 bytes count. -/
theorem cramHash_take (password greeting : List UInt8) :
    cramHash password greeting = cramHash (password.take 64) greeting := by
  have same : ((password.take 64) ++ List.replicate 64 0).take 64 =
      (password ++ List.replicate 64 (0 : UInt8)).take 64 := by
    rcases Nat.le_total password.length 64 with short | long
    · rw [List.take_of_length_le short]
    · have taken : (password.take 64).length = 64 := by
        rw [List.length_take]
        omega
      rw [List.take_left' taken, List.take_append_of_le_length long]
  simp only [cramHash, same]

theorem hexadecimal_injective {first second : List UInt8}
    (same : hexadecimal first = hexadecimal second) : first = second := by
  have digits : ∀ byte byte' : UInt8,
      hexadecimal.digit (byte.toNat / 16) = hexadecimal.digit (byte'.toNat / 16) →
      hexadecimal.digit (byte.toNat % 16) = hexadecimal.digit (byte'.toNat % 16) → byte = byte' := by
    have value : ∀ digit < 16, ∀ digit' < 16,
        hexadecimal.digit digit = hexadecimal.digit digit' → digit = digit' := by decide
    intro byte byte' high low
    have bound := byte.toNat_lt
    have bound' := byte'.toNat_lt
    have high := value _ (by omega) _ (by omega) high
    have low := value _ (by omega) _ (by omega) low
    refine UInt8.toNat_inj.mp ?_
    omega
  induction first generalizing second with
  | nil =>
    cases second with
    | nil => rfl
    | cons byte second => cases same
  | cons byte first ih =>
    cases second with
    | nil => cases same
    | cons byte' second =>
      simp only [hexadecimal, List.flatMap_cons, List.cons_append, List.nil_append,
        List.cons.injEq] at same
      rw [digits byte byte' same.1 same.2.1, ih same.2.2]

/-! ### The client -/

theorem digit_plain : ∀ value < 16,
    hexadecimal.digit value ≠ 0 ∧ tolower (hexadecimal.digit value) = hexadecimal.digit value := by
  decide

theorem hexadecimal_plain {bytes : List UInt8} {character : UInt8}
    (member : character ∈ hexadecimal bytes) : character ≠ 0 ∧ tolower character = character := by
  obtain ⟨byte, _, here⟩ := List.mem_flatMap.mp member
  have bound := byte.toNat_lt
  rcases List.mem_cons.mp here with rfl | rest
  · exact digit_plain _ (by omega)
  · rw [List.mem_singleton.mp rest]
    exact digit_plain _ (Nat.mod_lt _ (by decide))

theorem hexadecimal_length (bytes : List UInt8) : (hexadecimal bytes).length = 2 * bytes.length := by
  simp [hexadecimal, Nat.mul_comm]

/-- Two digests of 16 bytes are compared as they are. -/
theorem sameHash_iff {first second : List UInt8} (size : first.length = 16) :
    sameHash (hexadecimal first) (hexadecimal second) = true ↔ first = second := by
  have lower (bytes : List UInt8) : (hexadecimal bytes).map tolower = hexadecimal bytes :=
    (List.map_congr_left fun _ member => (hexadecimal_plain member).2).trans (List.map_id _)
  have whole : (hexadecimal first).take 32 = hexadecimal first :=
    List.take_of_length_le (by rw [hexadecimal_length, size])
  rw [sameHash, whole, stricmp, lower, lower, beq_iff_eq]
  exact ⟨hexadecimal_injective, congrArg hexadecimal⟩

theorem strchr_space {user rest : List UInt8} (plain : 32 ∉ user) :
    strchr (user ++ 32 :: rest) 32 = some user.length := by
  have none : user.findIdx? (· == 32) = none := by
    rw [List.findIdx?_eq_none_iff]
    intro character member
    exact beq_eq_false_iff_ne.mpr fun same => plain (same ▸ member)
  rw [strchr, List.findIdx?_append, none, Option.none_or, List.findIdx?_cons]
  simp

/-- A name, a space and a digest, as a client sends them. -/
structure AnswersWith (first : Received) (user digest : List UInt8) : Prop where
  decoded : decode64 first.buffer first.result = some (user ++ 32 :: hexadecimal digest)
  plain : 32 ∉ user
  text : 0 ∉ user

/-- What the server has said to a client that knows the password. -/
def acceptance (greeting : List UInt8) : SmtpAnswer :=
  ⟨[.challenge greeting, .authenticated], .authenticated⟩

/-- The answer is accepted if its digest is the one that the server builds. -/
theorem authCram_accepts {server : MailServer} {conn : Conn} {time : UInt32} {first : Received}
    {user digest : List UInt8} {mbox : Mailbox} (answers : AnswersWith first user digest)
    (known : (server.mbx.find? fun mbox => stricmp mbox.user user) = some mbox) :
    (∃ next, authCram server conn time (some first) =
        .ok (some next, acceptance (challengeAt server time))) ↔
      sameHash (hexadecimal digest) (cramHash mbox.password (challengeAt server time)) = true := by
  have whole : cstr (user ++ 32 :: hexadecimal digest) = user ++ 32 :: hexadecimal digest := by
    refine List.takeWhile_eq_self_iff.mpr fun character member => ?_
    refine bne_iff_ne.mpr ?_
    rcases List.mem_append.mp member with name | rest
    · rintro rfl
      exact answers.text name
    · rcases List.mem_cons.mp rest with rfl | digits
      · decide
      · exact (hexadecimal_plain digits).1
  have behind : (user ++ 32 :: hexadecimal digest).drop (user.length + 1) = hexadecimal digest := by
    rw [← List.drop_drop, List.drop_left]
    rfl
  simp only [authCram, answers.decoded, whole, strchr_space answers.plain, List.take_left, known,
    Option.any_some, behind]
  cases sameHash (hexadecimal digest) (cramHash mbox.password (challengeAt server time)) with
  | true =>
    rw [if_pos rfl]
    exact ⟨fun _ => rfl, fun _ => ⟨_, rfl⟩⟩
  | false =>
    rw [if_neg (by decide)]
    refine ⟨?_, nofun⟩
    rintro ⟨next, accepted⟩
    split at accepted <;> cases accepted

/-- The hash that a session compares is the keyed digest of the challenge under the first 64 bytes
of the password, so under a password that is not longer; and a client that answers with the keyed
digest under its own secret is accepted when it is the same. -/
theorem challenge_hash_is_keyed (password : List UInt8) {greeting : List UInt8}
    (fits : greeting.length + 64 < 2 ^ 29) :
    (∀ buffer, buildHash buffer password greeting =
        hexadecimal (hmac md5 (password.take 64) greeting)) ∧
      (password.length ≤ 64 →
        (∀ buffer, buildHash buffer password greeting =
            hexadecimal (hmac md5 password greeting)) ∧
          ∀ server conn time first user secret mbox, greeting = challengeAt server time →
            (server.mbx.find? fun mbox => stricmp mbox.user user) = some mbox →
            mbox.password = password → AnswersWith first user (hmac md5 secret greeting) →
            ((∃ next, authCram server conn time (some first) = .ok (some next, acceptance greeting)) ↔
              hmac md5 secret greeting = hmac md5 password greeting)) := by
  refine ⟨fun buffer => ?_, fun short => ⟨fun buffer => ?_, ?_⟩⟩
  · rw [buildHash_eq, cramHash_take, cramHash_short (List.length_take_le _ _) fits]
  · rw [buildHash_eq, cramHash_short short fits]
  · rintro server conn time first user secret mbox rfl known rfl answers
    have size : (hmac md5 secret (challengeAt server time)).length = 16 := by
      simp [hmac, md5]
    rw [authCram_accepts answers known, cramHash_short short fits]
    exact sameHash_iff size

/-- The challenge of a server, answered for a short password. -/
theorem short_password_is_keyed :
    buildHash (fun _ => 255) (ascii "secret") (ascii "<1@mail>") =
      hexadecimal (hmac md5 (ascii "secret") (ascii "<1@mail>")) :=
  ((@challenge_hash_is_keyed (ascii "secret") (ascii "<1@mail>") (by decide)).2
    (by decide)).1 _

/-- A password of 65 bytes is not hashed first. -/
theorem long_password_is_cut :
    buildHash (fun _ => 0) (List.replicate 65 97) (ascii "<1@mail>") ≠
      hexadecimal (hmac md5 (List.replicate 65 97) (ascii "<1@mail>")) := by
  have inner : md5 (((md5Bin (List.replicate 65 97) ++ List.replicate 48 0).map (· ^^^ 0x36)) ++
      ascii "<1@mail>") = md5Bin (((md5Bin (List.replicate 65 97) ++ List.replicate 48 0).map
        (· ^^^ 0x36)) ++ ascii "<1@mail>") :=
    (md5Bin_eq (by simp [md5Bin_length, ascii])).symm
  have outer (digest : List UInt8) (size : digest.length = 16) :
      md5 (((md5Bin (List.replicate 65 97) ++ List.replicate 48 0).map (· ^^^ 0x5c)) ++ digest) =
        md5Bin (((md5Bin (List.replicate 65 97) ++ List.replicate 48 0).map (· ^^^ 0x5c)) ++
          digest) :=
    (md5Bin_eq (by simp [md5Bin_length, size])).symm
  have key : md5 (List.replicate 65 97) = md5Bin (List.replicate 65 97) :=
    (md5Bin_eq (by simp)).symm
  have long : 64 < (List.replicate 65 (97 : UInt8)).length := by simp
  rw [buildHash_eq, hmac, if_pos long, key, md5Bin_length, inner, outer _ (md5Bin_length _)]
  decide +kernel

end QNXStuff.QXMail

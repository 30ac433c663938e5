import SymmetricCipher.Proofs.KeyRules
import SymmetricCipher.Proofs.WellFormed

/-!
# Engines before there is a key

Before a key is set, a context can be asked whether an accelerated engine could run the mode. It
then goes by the length that is set for a key from a password, as it was set. The key itself is
normalized, and so the answer can be no where it is yes as soon as there is a key: for lengths that
normalizing changes, and for no others.
-/

namespace SymmetricCipher

/-- The built-in backend can do something for a mode if it has the algorithm under keys of the
length. -/
lemma Backend.qualifies_provider_iff {suite : Provider.Suite} {algorithm : Algorithm} {mode : Mode}
    {keyLength : Nat} :
    (provider suite).Qualifies algorithm mode keyLength ↔
      Provider.supports algorithm keyLength = true := by
  rw [Qualifies, isAvailable, supportsRawBlock, Provider.isNative, Bool.and_eq_true]
  exact ⟨fun h => h.elim And.right id, .inr⟩

/-- The built-in backend could run a mode exactly if the mode can be accelerated at all, and the
backend provides ciphers for keys of the length. -/
lemma Selection.isValid_provider_iff {suite : Provider.Suite} {algorithm : Algorithm} {mode : Mode}
    {keyLength : Nat} :
    isValid [.provider suite] .accelerated algorithm mode keyLength = true ↔
      algorithm.MayAccelerate mode ∧ Provider.supports algorithm keyLength = true := by
  rw [isValid, Option.isSome_iff_ne_none, Ne, accelerated?_eq_none_iff, not_or, not_not,
    List.forall_mem_singleton, not_not, Backend.qualifies_provider_iff, and_comm]

/-- Of the lengths that an algorithm takes, the built-in backend lacks those that normalizing
changes. -/
lemma Provider.supports_iff_of_accepts {algorithm : Algorithm} {length : Nat}
    (h : algorithm.acceptsKeyLength length = true) (hi : algorithm ≠ .tripleDesInnerCbc)
    (hr : algorithm ≠ .rc4) :
    supports algorithm length = true ↔
      (algorithm = .twofish → length = 16 ∨ length = 24 ∨ length = 32) ∧
        (algorithm = .tripleDes → length = 24) := by
  cases algorithm with
  | aes | des => simpa [supports, Algorithm.acceptsKeyLength] using h
  | twofish => simp [supports, or_assoc]
  | tripleDes => simp [supports]
  | tripleDesInnerCbc => exact absurd rfl hi
  | rc4 => exact absurd rfl hr

namespace Context

variable {c : Context} {suite : Provider.Suite}

/-- Without a key, the length that is set decides. -/
lemma isValidEngine_of_no_key (hb : c.backends = [.provider suite]) (hk : c.key = none) :
    c.isValidEngine .accelerated = true ↔
      c.algorithm.MayAccelerate c.mode ∧ Provider.supports c.algorithm c.keyLength = true := by
  rw [isValidEngine, effectiveKeyLength, hk, hb, Selection.isValid_provider_iff]

/-- With a key, only the algorithm and the mode decide. -/
lemma isValidEngine_of_isKey (hb : c.backends = [.provider suite]) {key : Bytes}
    (hk : c.key = some key) (hkey : c.algorithm.IsKey key) :
    c.isValidEngine .accelerated = true ↔ c.algorithm.MayAccelerate c.mode := by
  rw [isValidEngine, effectiveKeyLength, hk, hb, Selection.isValid_provider_iff,
    and_iff_left_iff_imp]
  exact fun hmay => hkey.supports_iff.2 ⟨hmay.2.2, hmay.ne_rc4⟩

/-- A password never takes an engine away, and brings one only if the length is one that normalizing
changes. -/
lemma isValidEngine_setPassword (hb : c.backends = [.provider suite]) (hk : c.key = none)
    (hs : c.algorithm.supports c.mode = true)
    (ha : c.algorithm.acceptsKeyLength c.keyLength = true) (password : Bytes) :
    ∃ raw c', PasswordKey.derive {} password c.keyLength = .ok raw ∧ raw.length = c.keyLength ∧
      c.setPassword password {} = .ok c' ∧
      (c.isValidEngine .accelerated = true → c'.isValidEngine .accelerated = true) ∧
      (c.isValidEngine .accelerated = c'.isValidEngine .accelerated ↔
        (c.algorithm = .twofish → c.keyLength = 16 ∨ c.keyLength = 24 ∨ c.keyLength = 32) ∧
          (c.algorithm = .tripleDes → c.keyLength = 24)) := by
  obtain ⟨raw, key, hraw, hlen, hkey, hset⟩ :=
    setPassword_eq ha (show ({} : PasswordOptions).keyLength = none from rfl) rfl (by decide)
      password
  have hbefore := isValidEngine_of_no_key hb hk
  have hafter := isValidEngine_of_isKey
    (c := { c.outdate with key := some key, keyLength := key.length, desynchronized := false })
    hb rfl ⟨raw, hkey⟩
  refine ⟨raw, _, hraw, hlen, hset, fun h => hafter.2 (hbefore.1 h).1, ?_⟩
  rw [Bool.eq_iff_iff, hbefore, hafter]
  show (c.algorithm.MayAccelerate c.mode ∧ _ ↔ c.algorithm.MayAccelerate c.mode) ↔ _
  rw [and_iff_left_iff_imp]
  by_cases hmay : c.algorithm.MayAccelerate c.mode
  · rw [Provider.supports_iff_of_accepts ha hmay.2.2 hmay.ne_rc4]
    exact ⟨fun h => h hmay, fun h _ => h⟩
  · -- an algorithm that stays in software is neither of the two
    refine ⟨fun _ => ⟨fun h => ?_, fun h => ?_⟩, fun _ h => absurd h hmay⟩
    all_goals
      refine absurd ⟨hs, ?_, by rw [h]; decide⟩ hmay
      rintro hm
      rw [h, hm] at hs
      cases hs

/-- Over the built-in backend and without a key, any length that the algorithm accepts can be set,
and a password then gives a key of that length. What was said before of an accelerated engine is
what is said then, for every algorithm and every mode, but for two: Twofish under other lengths than
16, 24 and 32, and Triple DES under other lengths than 24. There the engine is denied first, and
there in the end. -/
theorem isValidEngine_before_password {algorithm : Algorithm} {mode : Mode}
    (h : algorithm.supports mode = true) (suite : Provider.Suite) :
    ∃ c, create algorithm mode [.provider suite] = .ok c ∧
      ∀ calls c', (c.run calls).2 = c' → c'.key = none →
        ∀ n, c'.algorithm.acceptsKeyLength n = true →
          ∃ before, c'.setKeyLength (n * 8) = .ok before ∧ ∀ password, ∃ raw after,
            PasswordKey.derive {} password n = .ok raw ∧ raw.length = n ∧
            before.setPassword password {} = .ok after ∧
            (before.isValidEngine .accelerated = true → after.isValidEngine .accelerated = true) ∧
            (before.isValidEngine .accelerated = after.isValidEngine .accelerated ↔
              (c'.algorithm = .twofish → n = 16 ∨ n = 24 ∨ n = 32) ∧
                (c'.algorithm = .tripleDes → n = 24)) := by
  obtain ⟨c, hc, -⟩ := create_ok h [.provider suite]
  refine ⟨c, hc, ?_⟩
  rintro calls c' rfl hk n hn
  have hrun := (Maintained.of_create hc).run calls
  have hbytes : n * 8 / 8 = n := Nat.mul_div_cancel n (by decide)
  refine ⟨{ (c.run calls).2 with keyLength := n }, ?_, fun password => ?_⟩
  · rw [setKeyLength, hbytes, if_pos ⟨Nat.mul_mod_left n 8, hn⟩]
  · exact isValidEngine_setPassword (c := { (c.run calls).2 with keyLength := n })
      hrun.offered hk hrun.valid.supports hn password

/-- In OFB, Twofish keys of 16 bytes are foreseen, and those of 5 bytes are not. -/
theorem isValidEngine_before_password_twofish :
    Algorithm.twofish.supports .ofb = true ∧
    ∃ c, create .twofish .ofb [.provider .standard] = .ok c ∧ c.key = none ∧
      Algorithm.twofish.acceptsKeyLength 16 = true ∧ Algorithm.twofish.acceptsKeyLength 5 = true ∧
      (∃ before after, c.setKeyLength (16 * 8) = .ok before ∧
        before.setPassword [7] {} = .ok after ∧
        before.isValidEngine .accelerated = after.isValidEngine .accelerated) ∧
      ∃ before after, c.setKeyLength (5 * 8) = .ok before ∧
        before.setPassword [7] {} = .ok after ∧
        before.isValidEngine .accelerated ≠ after.isValidEngine .accelerated := by
  have hs : Algorithm.twofish.supports .ofb = true := rfl
  obtain ⟨c, hc, hall⟩ := isValidEngine_before_password hs .standard
  have hforecast := hall [] c rfl
  cases hc
  obtain ⟨before, hbefore, hpassword⟩ := hforecast rfl 16 rfl
  obtain ⟨raw, after, -, -, hafter, -, hequal⟩ := hpassword [7]
  obtain ⟨before', hbefore', hpassword'⟩ := hforecast rfl 5 rfl
  obtain ⟨raw', after', -, -, hafter', -, hequal'⟩ := hpassword' [7]
  refine ⟨hs, _, rfl, rfl, rfl, rfl, ⟨before, after, hbefore, hafter, hequal.2 ?_⟩,
    before', after', hbefore', hafter', fun h => ?_⟩
  · exact ⟨fun _ => .inl rfl, nofun⟩
  · have hlength := (hequal'.1 h).1 rfl
    omega

/-- Triple DES with a key length of 64 bits: no accelerated engine could run CBC, and with the key
from a password one can. -/
theorem isValidEngine_denied_before_password :
    ∃ c before after, create .tripleDes .cbc [.provider .standard] = .ok c ∧ c.key = none ∧
      c.setKeyLength 64 = .ok before ∧ before.setPassword [7] {} = .ok after ∧
      before.isValidEngine .accelerated = false ∧ after.isValidEngine .accelerated = true := by
  obtain ⟨c, hc, hcreated⟩ :=
    create_ok (show Algorithm.tripleDes.supports .cbc = true from rfl) [.provider .standard]
  cases hc
  obtain ⟨raw, after, -, -, hafter, -, hequal⟩ := isValidEngine_setPassword
    (c := { (create .tripleDes .cbc [.provider .standard]).toOption.get rfl with keyLength := 8 })
    rfl rfl rfl rfl [7]
  refine ⟨_, _, after, rfl, rfl, rfl, hafter, rfl, ?_⟩
  cases hv : after.isValidEngine .accelerated with
  | true => rfl
  | false =>
    have hlength := (hequal.1 hv.symm).2 rfl
    cases hlength

end Context

end SymmetricCipher

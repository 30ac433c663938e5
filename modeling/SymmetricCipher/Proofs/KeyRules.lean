import SymmetricCipher.Backend.Provider
import SymmetricCipher.Proofs.Errors
import SymmetricCipher.Proofs.Key

/-!
# Rules for keys

Which keys an algorithm takes is said in many places: for lengths alone, where a key is normalized,
by the construction of each cipher, and by the built-in backend. All of them agree.
-/

namespace SymmetricCipher

namespace Algorithm

/-- What an algorithm makes of a key in software. -/
inductive Primitive where
  | block (cipher : BlockCipher)
  | layers (ciphers : TripleDes.Layers BlockCipher)
  | keystream (fresh : Rc4)

/-- The software under a key, by the one construction that the algorithm has. -/
def primitive (algorithm : Algorithm) (key : Bytes) : Except CipherError Primitive :=
  match algorithm with
  | tripleDesInnerCbc => (algorithm.innerLayers key).map .layers
  | rc4 => (algorithm.keystream key).map .keystream
  | aes | twofish | des | tripleDes => (algorithm.blockCipher key).map .block

variable {algorithm : Algorithm} {raw key : Bytes}

/-! ## Normalizing -/

/-- A key that is normalized has a length that is accepted. -/
lemma accepts_of_normalizeKey (h : algorithm.normalizeKey raw = .ok key) :
    algorithm.acceptsKeyLength raw.length = true := by
  cases algorithm with
  | twofish =>
    refine decide_eq_true (Nat.pos_of_ne_zero fun hzero => ?_)
    rw [normalizeKey, Twofish.normalizeKey, if_pos hzero] at h
    cases h
  | tripleDes | tripleDesInnerCbc =>
    have hlen := TripleDes.expandKey_eq_ok_iff.1 h
    simp only [acceptsKeyLength, Bool.or_eq_true, beq_iff_eq]
    omega
  | _ =>
    rw [normalizeKey] at h
    split at h
    · assumption
    · cases h

/-- A key of another length is refused for it. -/
lemma normalizeKey_of_not_accepts (h : algorithm.acceptsKeyLength raw.length = false) :
    algorithm.normalizeKey raw = .error (.invalidKeyLength algorithm raw.length) := by
  cases hn : algorithm.normalizeKey raw with
  | error e => rw [normalizeKey_error hn]
  | ok key =>
    rw [accepts_of_normalizeKey hn] at h
    cases h

/-- A key that is only checked for its length stays as it is. -/
lemma eq_of_ite {e : CipherError}
    (h : (if algorithm.acceptsKeyLength raw.length then .ok raw else .error e) = Except.ok key) :
    key = raw := by
  split at h <;> cases h
  rfl

/-! ## Constructing -/

/-- What is not normalized is refused by the construction too, with the same error. -/
lemma primitive_of_not_accepts (h : algorithm.acceptsKeyLength raw.length = false) :
    algorithm.primitive raw = .error (.invalidKeyLength algorithm raw.length) := by
  have hn := normalizeKey_of_not_accepts h
  cases algorithm with
  | aes =>
    have hlen : ¬(raw.length = 16 ∨ raw.length = 24 ∨ raw.length = 32) := by
      simpa [acceptsKeyLength, not_or, and_assoc] using h
    rw [primitive, blockCipher, Aes.cipher, if_neg hlen]
    rfl
  | twofish =>
    have hn : Twofish.normalizeKey raw = _ := hn
    rw [primitive, blockCipher, Twofish.cipher, hn]
    rfl
  | des =>
    have hlen : raw.length ≠ 8 := by simpa [acceptsKeyLength] using h
    rw [primitive, blockCipher, Des.cipher, if_neg hlen]
    rfl
  | tripleDes =>
    have hn : TripleDes.expandKey .tripleDes raw = _ := hn
    rw [primitive, blockCipher, TripleDes.cipher, hn]
    rfl
  | tripleDesInnerCbc =>
    have hn : TripleDes.expandKey .tripleDesInnerCbc raw = _ := hn
    rw [primitive, innerLayers, TripleDes.layers, hn]
    rfl
  | rc4 =>
    have hlen : raw.length = 0 ∨ 256 < raw.length := by
      simp only [acceptsKeyLength, Bool.and_eq_false_iff, decide_eq_false_iff_not] at h
      omega
    rw [primitive, keystream, Rc4.ofKey, if_pos hlen]
    rfl

/-- Every construction normalizes its key, or takes it as it is. -/
lemma primitive_of_normalizeKey (h : algorithm.normalizeKey raw = .ok key) :
    algorithm.primitive raw = algorithm.primitive key := by
  have hkey := IsKey.normalized ⟨raw, h⟩
  cases algorithm with
  | twofish =>
    have h : Twofish.normalizeKey raw = .ok key := h
    have hkey : Twofish.normalizeKey key = .ok key := hkey
    simp only [primitive, blockCipher, Twofish.cipher, h, hkey]
  | tripleDes =>
    have h : TripleDes.expandKey .tripleDes raw = .ok key := h
    have hkey : TripleDes.expandKey .tripleDes key = .ok key := hkey
    simp only [primitive, blockCipher, TripleDes.cipher, h, hkey]
  | tripleDesInnerCbc =>
    have h : TripleDes.expandKey .tripleDesInnerCbc raw = .ok key := h
    have hkey : TripleDes.expandKey .tripleDesInnerCbc key = .ok key := hkey
    simp only [primitive, innerLayers, TripleDes.layers, h, hkey]
  | _ => rw [eq_of_ite h]

/-- A key of an algorithm gives its primitive. -/
lemma IsKey.primitive_ok (h : algorithm.IsKey key) : ∃ p, algorithm.primitive key = .ok p := by
  cases algorithm with
  | tripleDesInnerCbc =>
    obtain ⟨ciphers, hc⟩ := h.innerLayers_ok
    exact ⟨.layers ciphers, by rw [primitive, hc]; rfl⟩
  | rc4 =>
    obtain ⟨fresh, hf⟩ := h.keystream_ok
    exact ⟨.keystream fresh, by rw [primitive, hf]; rfl⟩
  | _ =>
    obtain ⟨cipher, hc⟩ := h.blockCipher_ok nofun nofun
    exact ⟨.block cipher, by rw [primitive, hc]; rfl⟩

/-- Every key of an accepted length gives a block cipher, in the algorithms that are one. -/
lemma blockCipher_ok (h : algorithm.acceptsKeyLength key.length = true)
    (hi : algorithm ≠ tripleDesInnerCbc) (hr : algorithm ≠ rc4) :
    ∃ cipher, algorithm.blockCipher key = .ok cipher := by
  obtain ⟨normalized, hn⟩ := normalizeKey_ok h
  obtain ⟨p, hp⟩ := IsKey.primitive_ok ⟨key, hn⟩
  rw [← primitive_of_normalizeKey hn] at hp
  cases hc : algorithm.blockCipher key with
  | ok cipher => exact ⟨cipher, rfl⟩
  | error e =>
    cases algorithm with
    | tripleDesInnerCbc => exact absurd rfl hi
    | rc4 => exact absurd rfl hr
    | _ =>
      rw [primitive, hc] at hp
      cases hp

/-- The built-in backend takes the normalized keys of the algorithms that it has. -/
lemma IsKey.supports_iff (h : algorithm.IsKey key) :
    Provider.supports algorithm key.length = true ↔
      algorithm ≠ tripleDesInnerCbc ∧ algorithm ≠ rc4 := by
  cases algorithm with
  | twofish =>
    have hlen := h.length_twofish
    simpa [Provider.supports, or_assoc] using hlen
  | tripleDes =>
    obtain ⟨raw, h⟩ := h
    simp [Provider.supports, length_expandKey h]
  | aes => simpa [Provider.supports, acceptsKeyLength] using h.accepted
  | des => simpa [Provider.supports, acceptsKeyLength] using h.accepted
  | tripleDesInnerCbc | rc4 => simp [Provider.supports]

end Algorithm

namespace Provider

/-- The ciphers of the backend take the keys that their documentation gives the sizes of, and no
others. -/
structure Suite.TakesKeySizes (suite : Suite) : Prop where
  aes (key : Bytes) :
    (suite.keyed .aes key).isSome ↔ key.length = 16 ∨ key.length = 24 ∨ key.length = 32
  twofish (key : Bytes) :
    (suite.keyed .twofish key).isSome ↔ key.length = 16 ∨ key.length = 24 ∨ key.length = 32
  des (key : Bytes) : (suite.keyed .des key).isSome ↔ key.length = 8
  tripleDes (key : Bytes) : (suite.keyed .tripleDes key).isSome ↔ key.length = 24

/-- The built-in backend gives a cipher exactly if it provides one and its suite takes the key. -/
lemma cipher_ok_iff {suite : Suite} {algorithm : Algorithm} {key : Bytes} :
    (∃ c, cipher algorithm key suite = .ok c) ↔
      provides algorithm key.length = true ∧ (suite.keyed algorithm key).isSome := by
  rw [cipher]
  cases provides algorithm key.length with
  | false => simp
  | true => cases suite.keyed algorithm key <;> simp

/-- What the backend says to support is what its ciphers take. -/
lemma Suite.TakesKeySizes.cipher_ok_iff_supports {suite : Suite} (hs : suite.TakesKeySizes)
    (algorithm : Algorithm) (key : Bytes) :
    (∃ c, cipher algorithm key suite = .ok c) ↔ supports algorithm key.length = true := by
  rw [cipher_ok_iff]
  cases algorithm with
  | aes => simp [provides, supports, hs.aes, or_assoc]
  | twofish => simp [provides, supports, hs.twofish, or_assoc]
  | des => simp [provides, supports, hs.des]
  | tripleDes => simp [provides, supports, hs.tripleDes]
  | tripleDesInnerCbc | rc4 => simp [provides, supports]

/-- What the backend supports is a block cipher, under a length that is accepted. -/
lemma accepts_of_supports {algorithm : Algorithm} {length : Nat}
    (h : supports algorithm length = true) :
    algorithm.acceptsKeyLength length = true ∧
      algorithm ≠ .tripleDesInnerCbc ∧ algorithm ≠ .rc4 := by
  cases algorithm with
  | twofish =>
    simp only [supports, Bool.or_eq_true, beq_iff_eq] at h
    exact ⟨decide_eq_true (by omega), by decide, by decide⟩
  | tripleDes =>
    simp only [supports, beq_iff_eq] at h
    exact ⟨by simp [Algorithm.acceptsKeyLength, h], by decide, by decide⟩
  | aes | des => exact ⟨h, by decide, by decide⟩
  | tripleDesInnerCbc | rc4 => cases h

/-- This library's own ciphers take every key that the backend supports. -/
lemma Suite.isSome_keyed_standard (algorithm : Algorithm) (key : Bytes) :
    (Suite.standard.keyed algorithm key).isSome ↔ supports algorithm key.length = true := by
  simp only [standard]
  cases hs : supports algorithm key.length with
  | false => simp
  | true =>
    obtain ⟨ha, hi, hr⟩ := accepts_of_supports hs
    obtain ⟨c, hc⟩ := Algorithm.blockCipher_ok ha hi hr
    simp [hc]

/-- The suite of the ciphers of this library takes the sizes that are provided. -/
lemma Suite.takesKeySizes_standard : Suite.standard.TakesKeySizes where
  aes key := by simpa [supports, or_assoc] using isSome_keyed_standard .aes key
  twofish key := by simpa [supports, or_assoc] using isSome_keyed_standard .twofish key
  des key := by simpa [supports] using isSome_keyed_standard .des key
  tripleDes key := by simpa [supports] using isSome_keyed_standard .tripleDes key

end Provider

namespace Algorithm

/-- All rules for keys agree. A key is normalized exactly if its length is accepted, and another
one is refused for its length, where it is normalized and where a cipher is constructed. What comes
out is normalized and accepted; the construction takes it and makes of it what it makes of the key
that was given, and the built-in backend takes it exactly if it supports its length, which is so for
every algorithm but the layered Triple DES and RC4. -/
theorem keyRules_agree {suite : Provider.Suite} (hs : suite.TakesKeySizes) (algorithm : Algorithm)
    (raw : Bytes) :
    (algorithm.acceptsKeyLength raw.length = false →
      algorithm.normalizeKey raw = .error (.invalidKeyLength algorithm raw.length) ∧
      algorithm.primitive raw = .error (.invalidKeyLength algorithm raw.length)) ∧
    (algorithm.acceptsKeyLength raw.length = true →
      ∃ key p, algorithm.normalizeKey raw = .ok key ∧
        algorithm.normalizeKey key = .ok key ∧ algorithm.acceptsKeyLength key.length = true ∧
        algorithm.primitive key = .ok p ∧ algorithm.primitive raw = .ok p ∧
        ((∃ cipher, Provider.cipher algorithm key suite = .ok cipher) ↔
          Provider.supports algorithm key.length = true) ∧
        (Provider.supports algorithm key.length = true ↔
          algorithm ≠ tripleDesInnerCbc ∧ algorithm ≠ rc4)) := by
  refine ⟨fun h => ⟨normalizeKey_of_not_accepts h, primitive_of_not_accepts h⟩, fun h => ?_⟩
  obtain ⟨key, hn⟩ := normalizeKey_ok h
  have hkey : algorithm.IsKey key := ⟨raw, hn⟩
  obtain ⟨p, hp⟩ := hkey.primitive_ok
  have hraw : algorithm.primitive raw = .ok p := by rw [primitive_of_normalizeKey hn, hp]
  exact ⟨key, p, hn, hkey.normalized, hkey.accepted, hp, hraw,
    hs.cipher_ok_iff_supports algorithm key, hkey.supports_iff⟩

/-- Two Triple DES keys are three, the first one again; this library's own suite takes them. -/
theorem keyRules_agree_two_keys :
    Provider.Suite.standard.TakesKeySizes ∧
    tripleDes.acceptsKeyLength (List.range 16).length = true ∧
    ∃ key p, tripleDes.normalizeKey ((List.range 16).map UInt8.ofNat) = .ok key ∧
      key = (List.range 16 ++ List.range 8).map UInt8.ofNat ∧
      tripleDes.normalizeKey key = .ok key ∧ tripleDes.primitive key = .ok p ∧
      tripleDes.primitive ((List.range 16).map UInt8.ofNat) = .ok p ∧
      ∃ cipher, Provider.cipher .tripleDes key .standard = .ok cipher := by
  obtain ⟨key, p, hn, hkey, -, hp, hraw, hcipher, hsupports⟩ :=
    (keyRules_agree Provider.Suite.takesKeySizes_standard tripleDes
      ((List.range 16).map UInt8.ofNat)).2 (by decide)
  refine ⟨Provider.Suite.takesKeySizes_standard, by decide, key, p, hn, ?_, hkey, hp, hraw,
    hcipher.2 (hsupports.2 ⟨nofun, nofun⟩)⟩
  exact (Except.ok.inj hn).symm

end Algorithm

end SymmetricCipher

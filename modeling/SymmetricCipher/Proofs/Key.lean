import Mathlib.Tactic.Lemma
import SymmetricCipher.Key

/-!
# Normalized keys

A key that came out of `Algorithm.normalizeKey` has a length that every construction from it takes,
so that nothing is refused any more once a key is set.
-/

namespace SymmetricCipher

/-- Twofish refuses the empty key only. -/
lemma Twofish.normalizeKey_ok {key : Bytes} (h : key.length ≠ 0) :
    ∃ normalized, normalizeKey key = .ok normalized := by
  rw [normalizeKey, if_neg h]
  split
  · exact ⟨_, rfl⟩
  · split <;> exact ⟨_, rfl⟩

/-- Three values, to each of which the same is done. -/
def TripleDes.Layers.map {α β : Type} (f : α → β) (layers : Layers α) : Layers β :=
  ⟨f layers.first, f layers.second, f layers.third⟩

/-- An expanded key holds one key thrice, two keys and the first again, or three keys. -/
lemma TripleDes.expandKey_eq_ok_iff {algorithm : Algorithm} {raw key : Bytes} :
    expandKey algorithm raw = .ok key ↔
      raw.length = 8 ∧ key = raw ++ raw ++ raw ∨ raw.length = 16 ∧ key = raw ++ raw.take 8 ∨
      raw.length = 24 ∧ key = raw := by
  rw [expandKey]
  constructor
  · intro h
    split at h
    · exact .inl ⟨‹_›, (Except.ok.inj h).symm⟩
    · split at h
      · exact .inr (.inl ⟨‹_›, (Except.ok.inj h).symm⟩)
      · split at h
        · exact .inr (.inr ⟨‹_›, (Except.ok.inj h).symm⟩)
        · cases h
  · rintro (⟨h, rfl⟩ | ⟨h, rfl⟩ | ⟨h, rfl⟩)
    · exact if_pos h
    · rw [if_neg (by omega), if_pos h]
    · rw [if_neg (by omega), if_neg (by omega), if_pos h]

/-- The algorithm is named in refusals only. -/
lemma TripleDes.expandKey_congr {a : Algorithm} {raw key : Bytes}
    (h : expandKey a raw = .ok key) (b : Algorithm) : expandKey b raw = .ok key :=
  expandKey_eq_ok_iff.2 (expandKey_eq_ok_iff.1 h)

namespace Algorithm

/-- A key in the form that the algorithm takes. -/
def IsKey (algorithm : Algorithm) (key : Bytes) : Prop :=
  ∃ raw, algorithm.normalizeKey raw = .ok key

/-- A Twofish key is filled up or cut to one of three lengths. -/
lemma IsKey.length_twofish {key : Bytes} (h : twofish.IsKey key) :
    key.length = 16 ∨ key.length = 24 ∨ key.length = 32 := by
  obtain ⟨raw, h⟩ := h
  simp only [normalizeKey, Twofish.normalizeKey] at h
  split at h
  · cases h
  · split at h
    · cases h
      exact .inl (Bytes.length_fit 16 raw)
    · split at h
      · cases h
        exact .inr (.inl (Bytes.length_fit 24 raw))
      · cases h
        exact .inr (.inr (Bytes.length_fit 32 raw))

/-- An expanded key holds three DES keys. -/
lemma length_expandKey {algorithm : Algorithm} {raw key : Bytes}
    (h : TripleDes.expandKey algorithm raw = .ok key) : key.length = 24 := by
  obtain ⟨hlen, rfl⟩ | ⟨hlen, rfl⟩ | ⟨hlen, rfl⟩ := TripleDes.expandKey_eq_ok_iff.1 h
  · rw [List.length_append, List.length_append, hlen]
  · rw [List.length_append, List.length_take, hlen]
    rfl
  · exact hlen

/-- An expanded key is not expanded again. -/
lemma expandKey_of_length {key : Bytes} (h : key.length = 24) (algorithm : Algorithm) :
    TripleDes.expandKey algorithm key = .ok key :=
  TripleDes.expandKey_eq_ok_iff.2 (.inr (.inr ⟨h, rfl⟩))

/-- Triple DES takes keys for one, for two or for three of its ciphers. -/
lemma expandKey_ok (algorithm : Algorithm) {raw : Bytes}
    (h : raw.length = 8 ∨ raw.length = 16 ∨ raw.length = 24) :
    ∃ key, TripleDes.expandKey algorithm raw = .ok key := by
  obtain h | h | h := h
  · exact ⟨_, TripleDes.expandKey_eq_ok_iff.2 (.inl ⟨h, rfl⟩)⟩
  · exact ⟨_, TripleDes.expandKey_eq_ok_iff.2 (.inr (.inl ⟨h, rfl⟩))⟩
  · exact ⟨_, expandKey_of_length h algorithm⟩

/-- A key that is taken as it is has an accepted length. -/
lemma acceptsKeyLength_of_ite {algorithm : Algorithm} {raw key : Bytes} {e : CipherError}
    (h : (if algorithm.acceptsKeyLength raw.length then .ok raw else .error e) = Except.ok key) :
    algorithm.acceptsKeyLength key.length = true := by
  split at h
  · cases h
    assumption
  · cases h

/-- A key of an accepted length is taken. -/
lemma normalizeKey_ok {algorithm : Algorithm} {raw : Bytes}
    (h : algorithm.acceptsKeyLength raw.length = true) :
    ∃ key, algorithm.normalizeKey raw = .ok key := by
  cases algorithm with
  | twofish =>
    have hlen : 0 < raw.length := of_decide_eq_true h
    exact Twofish.normalizeKey_ok (Nat.ne_of_gt hlen)
  | tripleDes => exact expandKey_ok _ (by simpa [acceptsKeyLength, or_assoc] using h)
  | tripleDesInnerCbc => exact expandKey_ok _ (by simpa [acceptsKeyLength, or_assoc] using h)
  | _ => exact ⟨_, if_pos h⟩

/-- A normalized key stays as it is when it is set again. -/
lemma IsKey.normalized {algorithm : Algorithm} {key : Bytes} (h : algorithm.IsKey key) :
    algorithm.normalizeKey key = .ok key := by
  cases algorithm with
  | twofish =>
    have hfit := Bytes.fit_length key
    simp only [Algorithm.normalizeKey, Twofish.normalizeKey]
    rcases h.length_twofish with hlen | hlen | hlen
    · rw [hlen] at hfit
      rw [hlen, if_neg (by decide), if_pos (by decide), hfit]
    · rw [hlen] at hfit
      rw [hlen, if_neg (by decide), if_neg (by decide), if_pos (by decide), hfit]
    · rw [hlen] at hfit
      rw [hlen, if_neg (by decide), if_neg (by decide), if_neg (by decide), hfit]
  | tripleDes =>
    obtain ⟨raw, h⟩ := h
    exact expandKey_of_length (length_expandKey h) _
  | tripleDesInnerCbc =>
    obtain ⟨raw, h⟩ := h
    exact expandKey_of_length (length_expandKey h) _
  | _ =>
    obtain ⟨raw, h⟩ := h
    exact if_pos (acceptsKeyLength_of_ite h)

/-- The length of a normalized key is accepted. -/
lemma IsKey.accepted {algorithm : Algorithm} {key : Bytes} (h : algorithm.IsKey key) :
    algorithm.acceptsKeyLength key.length = true := by
  cases algorithm with
  | twofish =>
    have hlen := h.length_twofish
    exact decide_eq_true (by omega)
  | tripleDes =>
    obtain ⟨raw, h⟩ := h
    rw [length_expandKey h]
    rfl
  | tripleDesInnerCbc =>
    obtain ⟨raw, h⟩ := h
    rw [length_expandKey h]
    rfl
  | _ =>
    obtain ⟨raw, h⟩ := h
    exact acceptsKeyLength_of_ite h

/-- Every block cipher takes its normalized keys. -/
lemma IsKey.blockCipher_ok {algorithm : Algorithm} {key : Bytes} (h : algorithm.IsKey key)
    (hi : algorithm ≠ tripleDesInnerCbc) (hr : algorithm ≠ rc4) :
    ∃ cipher, algorithm.blockCipher key = .ok cipher := by
  cases algorithm with
  | aes =>
    obtain ⟨raw, h⟩ := h
    have hlen := acceptsKeyLength_of_ite h
    refine ⟨_, if_pos ?_⟩
    simpa [acceptsKeyLength, or_assoc] using hlen
  | twofish =>
    have hlen : key.length ≠ 0 := by
      have hlengths := h.length_twofish
      omega
    obtain ⟨normalized, hn⟩ := Twofish.normalizeKey_ok hlen
    rw [blockCipher, Twofish.cipher, hn]
    exact ⟨_, rfl⟩
  | des =>
    obtain ⟨raw, h⟩ := h
    have hlen := acceptsKeyLength_of_ite h
    refine ⟨_, if_pos ?_⟩
    simpa [acceptsKeyLength] using hlen
  | tripleDes =>
    obtain ⟨raw, h⟩ := h
    rw [blockCipher, TripleDes.cipher, expandKey_of_length (length_expandKey h)]
    exact ⟨_, rfl⟩
  | tripleDesInnerCbc => exact absurd rfl hi
  | rc4 => exact absurd rfl hr

/-- The layered Triple DES takes its normalized keys. -/
lemma IsKey.innerLayers_ok {key : Bytes} (h : tripleDesInnerCbc.IsKey key) :
    ∃ ciphers, tripleDesInnerCbc.innerLayers key = .ok ciphers := by
  obtain ⟨raw, h⟩ := h
  rw [innerLayers, TripleDes.layers, expandKey_of_length (length_expandKey h)]
  exact ⟨_, rfl⟩

/-- The stream cipher takes its normalized keys. -/
lemma IsKey.keystream_ok {key : Bytes} (h : rc4.IsKey key) :
    ∃ fresh, rc4.keystream key = .ok fresh := by
  obtain ⟨raw, h⟩ := h
  have hlen := acceptsKeyLength_of_ite h
  simp only [acceptsKeyLength, Bool.and_eq_true, decide_eq_true_eq] at hlen
  refine ⟨_, if_neg ?_⟩
  omega

end Algorithm

end SymmetricCipher

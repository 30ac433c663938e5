import Mathlib.Algebra.Group.Nat.Defs
import Mathlib.Data.List.Induction
import Mathlib.Data.Nat.ModEq
import Mathlib.Data.Set.Function
import Mathlib.Logic.Function.Iterate
import Mathlib.Order.Interval.Set.Defs
import Mathlib.Tactic.Lemma
import SymmetricCipher.Bytes.Counter

/-!
# Counters as numbers

A counter of `n` bytes is a number below `256 ^ n`, most significant byte first. `toNumber` reads it
and `ofNumber` writes it, and the two undo each other. The step of a counter is addition of one
modulo `256 ^ n`: its carry runs from the last byte to the first one, and is lost there. So a
counter comes again only when all counters of its width have come.
-/

namespace SymmetricCipher.Bytes

/-- The last `n` digits of a number to the base 256, most significant first. -/
def ofNumber : Nat → Nat → Bytes
  | 0, _ => []
  | n + 1, value => ofNumber n (value / 256) ++ [UInt8.ofNat value]

/-- As many digits are written as are asked for. -/
@[simp] lemma length_ofNumber (n value : Nat) : (ofNumber n value).length = n := by
  induction n generalizing value with
  | zero => rfl
  | succ n ih => rw [ofNumber, List.length_append, ih, List.length_singleton]

/-! ## Reading and writing -/

/-- A byte behind others is the last digit. -/
lemma toNumber_concat (data : Bytes) (byte : UInt8) :
    toNumber (data ++ [byte]) = toNumber data * 256 + byte.toNat := by
  rw [toNumber, List.foldl_append]
  rfl

/-- A byte before others is the first digit. -/
lemma toNumber_cons (byte : UInt8) (data : Bytes) :
    toNumber (byte :: data) = byte.toNat * 256 ^ data.length + toNumber data := by
  induction data using List.reverseRecOn with
  | nil => rw [toNumber, toNumber, List.foldl_cons, List.foldl_nil, List.foldl_nil]; simp
  | append_singleton data last ih =>
    rw [← List.cons_append, toNumber_concat, toNumber_concat, ih, List.length_append,
      List.length_singleton, Nat.pow_succ]
    rw [Nat.add_mul, Nat.mul_assoc, Nat.add_assoc]

/-- A number that was written is read again, modulo what the digits can hold. -/
lemma toNumber_ofNumber (n value : Nat) : toNumber (ofNumber n value) = value % 256 ^ n := by
  induction n generalizing value with
  | zero => rw [Nat.pow_zero, Nat.mod_one]; rfl
  | succ n ih =>
    rw [ofNumber, toNumber_concat, ih, Nat.pow_succ', Nat.mod_mul, UInt8.toNat_ofNat',
      Nat.mul_comm, Nat.add_comm]

/-- Bytes that were read are written again. -/
lemma ofNumber_toNumber (data : Bytes) : ofNumber data.length (toNumber data) = data := by
  induction data using List.reverseRecOn with
  | nil => rfl
  | append_singleton data last ih =>
    have hlt := last.toNat_lt
    have hdiv : (toNumber data * 256 + last.toNat) / 256 = toNumber data := by omega
    have hlast : UInt8.ofNat (toNumber data * 256 + last.toNat) = last := by
      rw [← UInt8.toNat_inj, UInt8.toNat_ofNat']
      omega
    rw [List.length_append, List.length_singleton, ofNumber, toNumber_concat, hdiv, ih, hlast]

/-- Bytes spell a number less than what their width can hold. -/
lemma toNumber_lt (data : Bytes) : toNumber data < 256 ^ data.length := by
  rw [← ofNumber_toNumber data, toNumber_ofNumber, length_ofNumber]
  exact Nat.mod_lt _ (Nat.pow_pos (by decide))

/-- Byte strings of one length that spell the same number are the same. -/
lemma eq_of_toNumber_eq {a b : Bytes} (hlen : a.length = b.length)
    (h : toNumber a = toNumber b) : a = b := by
  rw [← ofNumber_toNumber a, ← ofNumber_toNumber b, hlen, h]

/-! ## Counting -/

/-- What the bytes say after one step, and the carry that leaves them, make up one more. -/
lemma toNumber_addOne (counter : Bytes) :
    toNumber (addOne counter).1 + (if (addOne counter).2 then 256 ^ counter.length else 0) =
      toNumber counter + 1 := by
  induction counter with
  | nil => rfl
  | cons byte rest ih =>
    have hlen : (addOne rest).1.length = rest.length := length_increment rest
    rw [addOne, toNumber_cons, List.length_cons, Nat.pow_succ']
    cases hcarry : (addOne rest).2 with
    | false =>
      simp only [hcarry, Bool.false_eq_true, if_false, Nat.add_zero] at ih ⊢
      rw [toNumber_cons, hlen, ih, Nat.add_assoc]
    | true =>
      simp only [hcarry, if_true] at ih ⊢
      rw [toNumber_cons, hlen]
      by_cases hbyte : byte = 255
      · -- the byte starts over, and hands the carry on
        subst hbyte
        show (0 : UInt8).toNat * _ + _ + 256 * 256 ^ rest.length =
          255 * 256 ^ rest.length + toNumber rest + 1
        rw [show (0 : UInt8).toNat = 0 from rfl]
        omega
      · have hne : (byte == 255) = false := beq_false_of_ne hbyte
        have hsucc : (byte + 1).toNat = byte.toNat + 1 := by
          have hlt : byte.toNat < 255 := by
            have := byte.toNat_lt
            have : byte.toNat ≠ 255 := fun h => hbyte (UInt8.toNat_inj.1 h)
            omega
          rw [UInt8.toNat_add, show (1 : UInt8).toNat = 1 from rfl]
          omega
        rw [hne, hsucc, Nat.succ_mul]
        simp only [Bool.false_eq_true, if_false]
        omega

/-- The step of a counter adds one, modulo what the width can hold. -/
lemma toNumber_increment (counter : Bytes) :
    toNumber (increment counter) = (toNumber counter + 1) % 256 ^ counter.length := by
  have hlt := toNumber_lt (increment counter)
  rw [length_increment] at hlt
  rw [← toNumber_addOne]
  split
  · rw [Nat.add_mod_right]
    exact (Nat.mod_eq_of_lt hlt).symm
  · exact (Nat.mod_eq_of_lt hlt).symm

/-- The counter that is greater by `k`, modulo what the width can hold. -/
def advance (counter : Bytes) (k : Nat) : Bytes :=
  ofNumber counter.length ((toNumber counter + k) % 256 ^ counter.length)

/-- Some steps of counting add as many to the counter. -/
lemma iterate_increment (counter : Bytes) (k : Nat) : increment^[k] counter = advance counter k := by
  induction k with
  | zero =>
    rw [Function.iterate_zero_apply, advance, Nat.add_zero, Nat.mod_eq_of_lt (toNumber_lt counter),
      ofNumber_toNumber]
  | succ k ih =>
    rw [Function.iterate_succ_apply', ih]
    refine eq_of_toNumber_eq ?_ ?_
    · rw [length_increment, advance, advance, length_ofNumber, length_ofNumber]
    · rw [toNumber_increment, advance, advance, length_ofNumber, toNumber_ofNumber,
        toNumber_ofNumber, Nat.mod_mod, Nat.mod_mod, Nat.mod_add_mod, Nat.add_assoc]

/-- Counting keeps the width. -/
lemma length_iterate_increment (counter : Bytes) (k : Nat) :
    (increment^[k] counter).length = counter.length := by
  rw [iterate_increment, advance, length_ofNumber]

/-- So many steps count up the number by as many, modulo what the width can hold. -/
lemma toNumber_iterate_increment (counter : Bytes) (k : Nat) :
    toNumber (increment^[k] counter) = (toNumber counter + k) % 256 ^ counter.length := by
  rw [iterate_increment, advance, toNumber_ofNumber, Nat.mod_mod]

/-! ## Counters that come again -/

/-- Steps lead to the same counter only if their numbers are the same modulo what the width can
hold. -/
lemma iterate_increment_eq_iff {counter : Bytes} {i j : Nat} :
    increment^[i] counter = increment^[j] counter ↔ i ≡ j [MOD 256 ^ counter.length] := by
  constructor
  · intro h
    have hvalue := congrArg toNumber h
    rw [toNumber_iterate_increment, toNumber_iterate_increment] at hvalue
    exact Nat.ModEq.add_left_cancel' (toNumber counter) hvalue
  · intro h
    refine eq_of_toNumber_eq ?_ ?_
    · rw [length_iterate_increment, length_iterate_increment]
    · rw [toNumber_iterate_increment, toNumber_iterate_increment]
      exact h.add_left (toNumber counter)

/-- Of as many steps in a row as there are counters, no two lead to the same one. -/
lemma injOn_iterate_increment (counter : Bytes) (first : Nat) :
    Set.InjOn (fun j => increment^[j] counter)
      (Set.Ico first (first + 256 ^ counter.length)) := by
  intro i hi j hj h
  have hmod : i ≡ j [MOD 256 ^ counter.length] := iterate_increment_eq_iff.1 h
  wlog hle : i ≤ j
  · exact (this counter first hj hi h.symm hmod.symm (Nat.le_of_not_le hle)).symm
  have hdvd := (Nat.modEq_iff_dvd' hle).1 hmod
  have hlt : j - i < 256 ^ counter.length := by
    have hfirst := hi.1
    have hlast := hj.2
    omega
  have hzero := Nat.eq_zero_of_dvd_of_lt hdvd hlt
  omega

end SymmetricCipher.Bytes

/-!
# Directions

Data is either encrypted or decrypted.
-/

namespace SymmetricCipher

/-- Which way the data goes. -/
inductive Direction where
  | encrypt
  | decrypt
  deriving DecidableEq, Repr

end SymmetricCipher

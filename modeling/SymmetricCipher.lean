import SymmetricCipher.Bytes.Counter
import SymmetricCipher.Bytes.Word
import SymmetricCipher.Algorithm
import SymmetricCipher.Engine
import SymmetricCipher.Error
import SymmetricCipher.Padding
import SymmetricCipher.Cipher.Aes.Basic
import SymmetricCipher.Cipher.Des.Basic
import SymmetricCipher.Cipher.TripleDes
import SymmetricCipher.Cipher.Rc4
import SymmetricCipher.Cipher.Twofish.Basic
import SymmetricCipher.Chaining.BlockMode
import SymmetricCipher.Chaining.Duplex
import SymmetricCipher.Digest.Frame
import SymmetricCipher.Digest.Hash
import SymmetricCipher.PasswordKey
import SymmetricCipher.Backend.Basic
import SymmetricCipher.Backend.Selection
import SymmetricCipher.Backend.Ledger
import SymmetricCipher.Context.Basic
import SymmetricCipher.Context.Call
import SymmetricCipher.Backend.Summary
import SymmetricCipher.Context.Summary
import SymmetricCipher.CommandLine.Arguments
import SymmetricCipher.CommandLine.Directory
import SymmetricCipher.Text.Blank
import SymmetricCipher.Text.Hex
import SymmetricCipher.CommandLine.Run
import SymmetricCipher.Main
import SymmetricCipher.Proofs.Selection
import SymmetricCipher.Proofs.Build
import SymmetricCipher.Proofs.Key
import SymmetricCipher.Proofs.OneShot
import SymmetricCipher.Proofs.Session
import SymmetricCipher.Proofs.Settings
import SymmetricCipher.Proofs.Runs
import SymmetricCipher.Proofs.Reference
import SymmetricCipher.Proofs.Processing
import SymmetricCipher.Proofs.Fields
import SymmetricCipher.Proofs.Ledger
import SymmetricCipher.Proofs.PasswordKey
import SymmetricCipher.Proofs.WellFormed
import SymmetricCipher.Proofs.Refinement
import SymmetricCipher.Proofs.Faults
import SymmetricCipher.Proofs.Desynchronization
import SymmetricCipher.Proofs.Cipher.Aes
import SymmetricCipher.Proofs.Cipher.Des
import SymmetricCipher.Proofs.Cipher.Twofish
import SymmetricCipher.Proofs.Padding
import SymmetricCipher.Proofs.Inversion
import SymmetricCipher.Proofs.Stepping
import SymmetricCipher.Proofs.Separation
import SymmetricCipher.Proofs.SingleKey
import SymmetricCipher.Proofs.Pieces
import SymmetricCipher.Proofs.RoundTrip
import SymmetricCipher.Proofs.CommandLine
import SymmetricCipher.Proofs.Directory
import SymmetricCipher.Proofs.Hex
import SymmetricCipher.Proofs.Arguments
import SymmetricCipher.Proofs.OutputFile
import SymmetricCipher.Proofs.PieceLength
import SymmetricCipher.Proofs.FileRoundTrip
import SymmetricCipher.Proofs.ProviderSession
import SymmetricCipher.Proofs.Cipher.AesStandard
import SymmetricCipher.Proofs.Cipher.TwofishTextbook
import SymmetricCipher.Proofs.Cipher.Keyed
import SymmetricCipher.Proofs.Cipher.Rc4
import SymmetricCipher.Proofs.Cipher.TwofishLanes
import SymmetricCipher.Proofs.Cipher.DesKeyBits
import SymmetricCipher.Proofs.Keystream
import SymmetricCipher.Proofs.Feedback
import SymmetricCipher.Proofs.Bijection
import SymmetricCipher.Proofs.Resynchronization
import SymmetricCipher.Proofs.Cipher.DesComplement
import SymmetricCipher.Proofs.LayeredCbc
import SymmetricCipher.Proofs.Pbkdf2
import SymmetricCipher.Proofs.BlockIndices
import SymmetricCipher.Proofs.KeyRules
import SymmetricCipher.Proofs.Refusals
import SymmetricCipher.Proofs.EngineInUse
import SymmetricCipher.Proofs.EngineForecast

import SymmetricCipher.Context.Basic

/-!
# Summaries of contexts

One line of text that shows the settings of a context, but neither its key nor its data.
-/

namespace SymmetricCipher

/-- The title of an algorithm. -/
def Algorithm.title : Algorithm → String
  | aes => "Aes"
  | twofish => "Twofish"
  | des => "Des"
  | tripleDes => "TripleDes"
  | tripleDesInnerCbc => "TripleDesInnerCbc"
  | rc4 => "Rc4"

/-- The title of a mode. -/
def Mode.title : Mode → String
  | ecb => "Ecb"
  | cbc => "Cbc"
  | ctr => "Ctr"
  | cfb => "Cfb"
  | cfb8 => "Cfb8"
  | ofb => "Ofb"
  | stream => "Stream"

/-- The title of an engine. -/
def Engine.title : Engine → String
  | software => "Software"
  | accelerated => "Accelerated"

namespace Context

/-- The engine in use, if there is one. -/
def engineSummary (c : Context) : String :=
  match c.engine? with
  | some engine => "Some(" ++ engine.title ++ ")"
  | none => "None"

/-- The settings of a context. -/
def summary (c : Context) : String :=
  "CipherContext \x7b algorithm: " ++ c.algorithm.title
    ++ ", mode: " ++ c.mode.title
    ++ ", key_set: " ++ toString c.key.isSome
    ++ ", continuous_buffer: " ++ toString c.continuous
    ++ ", padding: " ++ toString c.padding
    ++ ", engine: " ++ c.engineSummary ++ ", .. \x7d"

end Context

end SymmetricCipher

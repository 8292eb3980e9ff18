import ModuleBundler.Text.LineEnds

/-! Text in bytes. Strict UTF-8 admits neither overlong forms nor surrogates;
the single-byte reading takes each byte as the code point of its number and so
accepts everything. -/
namespace ModuleBundler.Text

/-- Strict UTF-8 with its line ends unified, if the bytes are valid. -/
def decodeUtf8? (bytes : ByteArray) : Option String :=
  (String.fromUTF8? bytes).map fun text => String.ofList (unifyLineEnds text.toList)

/-- Continuations that complete every character which has begun and lacks one, two or three
bytes. -/
def completions : List (List UInt8) :=
  [[0x80], [0x80, 0x80], [0xA0, 0x80], [0x80, 0x80, 0x80], [0x90, 0x80, 0x80]]

/-- Whether bytes are the beginning of a character and no more. -/
def isUnfinished (bytes : ByteArray) : Bool :=
  completions.any fun rest => (String.fromUTF8? (bytes ++ ⟨rest.toArray⟩)).isSome

/-- The text of bytes up to a character that they leave unfinished, and how many of them it
takes. -/
def decodeFront? (bytes : ByteArray) : Option (String × Nat) :=
  [0, 1, 2, 3].findSome? fun count =>
    let stop := bytes.size - count
    if count = 0 ∨ isUnfinished (bytes.extract stop bytes.size) then
      (String.fromUTF8? (bytes.extract 0 stop)).map fun text => (text, stop)
    else none

/-- Each byte is the code point of its number; line ends are unified. -/
def decodeSingleByte (bytes : ByteArray) : String :=
  String.ofList (unifyLineEnds (bytes.toList.map fun b => Char.ofNat b.toNat))

/-- The strict reading where it applies to the whole content, else the single-byte one. -/
def decode (bytes : ByteArray) : String := (decodeUtf8? bytes).getD (decodeSingleByte bytes)

end ModuleBundler.Text

/-!
# Bytes and characters

Inside the program a text has one character for each byte of the input. Going out, such a
character is its byte again, and any character beyond them is written in UTF-8.
-/

namespace ChessArbiter.ByteText

def ofBytes (bytes : ByteArray) : String :=
  String.ofList (bytes.toList.map fun b => Char.ofNat b.toNat)

def charBytes (c : Char) : List UInt8 :=
  if c.toNat < 256 then [c.toNat.toUInt8] else c.toString.toUTF8.toList

def toBytes (s : String) : ByteArray := ⟨(s.toList.flatMap charBytes).toArray⟩

end ChessArbiter.ByteText

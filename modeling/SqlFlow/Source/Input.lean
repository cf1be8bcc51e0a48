import SqlFlow.Source.ReadFault

/-!
# Reading text

A script or a settings file comes as bytes from a source that may break off. Its text is there if
the source is read to its end and the bytes are UTF-8.
-/

namespace SqlFlow.Source

/-- What a source gives before it ends or breaks off. -/
structure Input where
  bytes : ByteArray
  /-- The report with which the source breaks off behind the bytes. -/
  broken? : Option String := none

namespace Input

/-- A text as a source that gives its bytes. -/
def ofString (s : String) : Input := { bytes := s.toUTF8 }

/-- The whole text. A source that breaks off has failed also when its bytes are not UTF-8. -/
def text (i : Input) : Except ReadFault String :=
  match i.broken?, String.fromUTF8? i.bytes with
  | some report, _ => .error (.broken report)
  | none, some s => .ok s
  | none, none => .error .notUtf8

end Input

end SqlFlow.Source

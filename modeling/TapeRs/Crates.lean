import TapeRs.Data.Text
import TapeRs.Data.Xml
import TapeRs.Ltfs.Index

namespace TapeRs

open Ltfs

/-- The third-party crates the volume code calls: quick-xml and uuid. -/
structure Crates where
  xmlWrite : List Xml.Event → List UInt8
  xmlRead : List UInt8 → Xml.ReadResult
  uuidToString : Uuid → String
  uuidParse : String → Option Uuid

namespace Crates

/-- The reader hands back the events of a written document, with the layout of the writer between them. -/
structure Rereads (crates : Crates) (document : List Xml.Event) : Prop where
  events : (crates.xmlRead (crates.xmlWrite document)).events.map (·.event) = Xml.visible (Xml.layout 0 false document)
  complete : (crates.xmlRead (crates.xmlWrite document)).failure = none

/-- The text of an identifier has no white space around it and parses to the identifier. -/
structure UuidText (crates : Crates) : Prop where
  trimmed : ∀ uuid, Text.Trimmed (crates.uuidToString uuid)
  parses : ∀ uuid, crates.uuidParse (crates.uuidToString uuid) = some uuid

end Crates

end TapeRs

import ClauseTriage.Text.Blank

/-!
# Records of a table file

Fields are separated by commas and records by line ends. A field that begins with a quote runs to
the quote that closes it and may hold separators, line ends and doubled quotes; lines without any
character are passed over.
-/
namespace ClauseTriage.Table

/-- Bytes of one field. -/
abbrev Bytes := List UInt8

def comma : UInt8 := 44

def quoteByte : UInt8 := 34

def lineFeed : UInt8 := 10

def carriageReturn : UInt8 := 13

/-- Where a reader stands. -/
inductive Place where
  /-- No character of the record has been read. -/
  | recordStart
  | fieldStart
  | plain
  | quoted
  /-- A quote has been read that closes the field, unless it is one of two. -/
  | closing
  deriving DecidableEq, Repr

/-- What has been read; all lists are newest first. -/
structure Reader where
  records : List (List Bytes) := []
  fields : List Bytes := []
  field : Bytes := []
  place : Place := .recordStart
  deriving Repr

namespace Reader

def add (r : Reader) (b : UInt8) (place : Place) : Reader :=
  { r with field := b :: r.field, place := place }

def endField (r : Reader) : Reader :=
  { r with fields := r.field.reverse :: r.fields, field := [], place := .fieldStart }

def endRecord (r : Reader) : Reader :=
  let done := r.endField
  { records := done.fields.reverse :: done.records }

/-- A byte outside quotes. -/
def plainByte (r : Reader) (b : UInt8) : Reader :=
  if b = comma then r.endField
  else if b = lineFeed ∨ b = carriageReturn then r.endRecord
  else r.add b .plain

/-- The first byte of a field. -/
def firstByte (r : Reader) (b : UInt8) : Reader :=
  if b = quoteByte then { r with place := .quoted } else r.plainByte b

def step (r : Reader) (b : UInt8) : Reader :=
  match r.place with
  | .recordStart => if b = lineFeed ∨ b = carriageReturn then r else r.firstByte b
  | .fieldStart => r.firstByte b
  | .plain => r.plainByte b
  | .quoted => if b = quoteByte then { r with place := .closing } else r.add b .quoted
  | .closing => if b = quoteByte then r.add b .quoted else r.plainByte b

/-- The records read; the last one needs no line end. -/
def finish (r : Reader) : List (List Bytes) :=
  (if r.place = .recordStart then r else r.endRecord).records.reverse

end Reader

/-- A mark that may stand before the first record. -/
def byteOrderMark : Bytes := [0xef, 0xbb, 0xbf]

/-- The records of a file. -/
def records (bytes : Bytes) : List (List Bytes) :=
  let body := if byteOrderMark.isPrefixOf bytes then bytes.drop 3 else bytes
  (body.foldl Reader.step {}).finish

/-- The text of a field, without white space at its ends. -/
def fieldText? (b : Bytes) : Option String := (String.fromUTF8? ⟨b.toArray⟩).map Text.trim

/-- A field of a written table: quoted where it holds a separator, a quote or a line end. -/
def writeField (s : String) : String :=
  if s.toList.any fun c => c = ',' || c = '"' || c = '\n' || c = '\r' then
    "\"" ++ String.ofList (s.toList.flatMap fun c => if c = '"' then ['"', '"'] else [c]) ++ "\""
  else s

end ClauseTriage.Table

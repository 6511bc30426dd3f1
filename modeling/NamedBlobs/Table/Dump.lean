import NamedBlobs.Table.Basic
import NamedBlobs.Text.Quoted
import NamedBlobs.Text.Utf8

/-!
# Tables as text

Four renderings of a table. The plain one has a line per record: the identifier,
a tab, the lossy name. The JSON one is an array of objects with the members
`name` and `identifier`, indented by two spaces. The other two describe the
structure on one line or with an indented line per field.
-/

namespace NamedBlobs

namespace Record

def nameChars (record : Record) : List Char := Utf8.chars record.name

def nameText (record : Record) : String := Utf8.text record.name

def plainLine (record : Record) : List Char :=
  Numeral.integerChars record.identifier.toInt ++ '\t' :: record.nameChars ++ ['\n']

def jsonObject (record : Record) : List Char :=
  "  \x7b\n    \"name\": ".toList ++ Quoted.wrap Quoted.jsonChar record.nameChars ++
    ",\n    \"identifier\": ".toList ++ Numeral.integerChars record.identifier.toInt ++
    "\n  \x7d".toList

/-- The structure of a record on one line. -/
def describe (record : Record) : String :=
  s!"Record \x7b name: {Quoted.literal record.nameChars}, identifier: {Numeral.integer record.identifier.toInt} \x7d"

/-- The structure of a record in a list, a line per field. -/
def outline (record : Record) : String :=
  s!"        Record \x7b\n            name: {Quoted.literal record.nameChars},\n            identifier: {Numeral.integer record.identifier.toInt},\n        \x7d,\n"

end Record

namespace Table

def plainChars (table : Table) : List Char := table.records.flatMap Record.plainLine

/-- The plain rendering: a line per record. -/
def plain (table : Table) : String := String.ofList table.plainChars

def jsonChars (table : Table) : List Char :=
  match table.records with
  | [] => ['[', ']']
  | first :: others =>
      '[' :: '\n' :: first.jsonObject ++
        others.flatMap (fun record => ',' :: '\n' :: record.jsonObject) ++ ['\n', ']']

/-- The JSON rendering: an array of objects. -/
def json (table : Table) : String := String.ofList table.jsonChars

def describe (table : Table) : String :=
  let records := String.intercalate ", " (table.records.map Record.describe)
  s!"Table \x7b records: [{records}] \x7d"

def outline (table : Table) : String :=
  let records := String.join (table.records.map Record.outline)
  if table.records.isEmpty then "Table \x7b\n    records: [],\n\x7d"
  else s!"Table \x7b\n    records: [\n{records}    ],\n\x7d"

end Table

end NamedBlobs

import RelytIngest.Foundations.DecimalText
import Mathlib.Data.List.Basic

/-!
# The reference reader of the dialect

`readCsv` reads a text in the loader's dialect: the double quote is both quote and escape, a bare
empty field is NULL, the delimiter ends a field and LF a record outside quotes. The reader is a
machine over characters (`Reader.read`) with the fields of the open record and the records read so
far.
-/

set_option autoImplicit false
set_option relaxedAutoImplicit false

namespace RelytIngest

open Foundations

/-- Where in a field the reader stands, with the text read so far. -/
inductive Place
  | fieldStart
  | bare (text : Text)
  | quoted (text : Text)
  /-- After a quote inside a quoted field: its end, or the first half of a doubled quote. -/
  | afterQuote (text : Text)
  deriving DecidableEq, Repr

/-- The field that ends here, unless a quote is still open: NULL when nothing was written. -/
def Place.field : Place → Option (Option Text)
  | .fieldStart => some none
  | .bare text | .afterQuote text => some (some text)
  | .quoted _ => none

structure Reader where
  place : Place
  fields : List (Option Text)
  records : List (List (Option Text))
  deriving DecidableEq, Repr

namespace Reader

/-- The reader at the start of a record. -/
def atRecord (records : List (List (Option Text))) : Reader := ⟨.fieldStart, [], records⟩

def endField (reader : Reader) (field : Option Text) : Reader :=
  { reader with place := .fieldStart, fields := reader.fields ++ [field] }

def endRecord (reader : Reader) : Reader := atRecord (reader.records ++ [reader.fields])

/-- One character. -/
def read (delimiter : Char) (reader : Reader) (c : Char) : Option Reader :=
  match reader.place with
  | .quoted text =>
    some { reader with place := if c = '"' then .afterQuote text else .quoted (text ++ [c]) }
  | place =>
    if c = delimiter then place.field.map reader.endField
    else if c = '\n' then place.field.map fun field ↦ (reader.endField field).endRecord
    else
      match place with
      | .fieldStart =>
        some { reader with place := if c = '"' then .quoted [] else .bare [c] }
      | .bare text => if c = '"' then none else some { reader with place := .bare (text ++ [c]) }
      | .afterQuote text =>
        if c = '"' then some { reader with place := .quoted (text ++ ['"']) } else none
      | .quoted _ => none

/-- The records at the end of the text; a last record needs no line end. -/
def finish (reader : Reader) : Option (List (List (Option Text))) :=
  if reader.place = .fieldStart ∧ reader.fields = [] then some reader.records
  else reader.place.field.map fun field ↦ (reader.endField field).endRecord.records

/-- The characters of a text in turn. -/
def readAll (delimiter : Char) (reader : Reader) (text : Text) : Option Reader :=
  text.foldlM (read delimiter) reader

end Reader

/-- The records of a text. -/
def readCsv (delimiter : Char) (text : Text) : Option (List (List (Option Text))) :=
  ((Reader.atRecord []).readAll delimiter text).bind Reader.finish

namespace Reader

variable {delimiter : Char} {reader : Reader}

theorem readAll_append {middle : Reader} {front : Text}
    (hfront : reader.readAll delimiter front = some middle) (back : Text) :
    reader.readAll delimiter (front ++ back) = middle.readAll delimiter back := by
  rw [readAll, List.foldlM_append]
  rw [readAll] at hfront
  rw [hfront]
  rfl

theorem readAll_singleton (c : Char) : reader.readAll delimiter [c] = reader.read delimiter c := by
  simp [readAll]

/-- Outside an open quote the delimiter ends the field. -/
theorem read_delimiter {field : Option Text} (hfield : reader.place.field = some field) :
    reader.read delimiter delimiter = some (reader.endField field) := by
  cases hplace : reader.place with
  | quoted text => simp [hplace, Place.field] at hfield
  | _ => simp_all [read]

/-- Outside an open quote the line end ends the field and the record. -/
theorem read_lineEnd {field : Option Text} (hdelimiter : delimiter ≠ '\n')
    (hfield : reader.place.field = some field) :
    reader.read delimiter '\n' = some (reader.endField field).endRecord := by
  cases hplace : reader.place with
  | quoted text => simp [hplace, Place.field] at hfield
  | _ => simp_all [read, hdelimiter.symm]

/-- A quote at the start of a field opens it. -/
theorem read_openQuote (hdelimiter : delimiter ≠ '"') (hplace : reader.place = .fieldStart) :
    reader.read delimiter '"' = some { reader with place := .quoted [] } := by
  simp [read, hplace, hdelimiter.symm]

/-- Inside quotes every character but the quote is copied. -/
theorem readAll_quoted_plain (delimiter : Char) (reader : Reader) {text more : Text}
    (hplace : reader.place = .quoted text) (hplain : '"' ∉ more) :
    reader.readAll delimiter more = some { reader with place := .quoted (text ++ more) } := by
  induction more generalizing reader text with
  | nil =>
    rw [List.append_nil, ← hplace]
    rfl
  | cons c rest ih =>
    rw [List.mem_cons, not_or] at hplain
    have hread : reader.read delimiter c =
        some { reader with place := .quoted (text ++ [c]) } := by
      simp [read, hplace, Ne.symm hplain.1]
    rw [readAll, List.foldlM_cons, hread]
    refine (ih { reader with place := .quoted (text ++ [c]) } rfl hplain.2).trans ?_
    simp

/-- A doubled quote inside quotes is one quote. -/
theorem readAll_quoted_double {text : Text} (hdelimiter : delimiter ≠ '"')
    (hplace : reader.place = .quoted text) :
    reader.readAll delimiter ['"', '"'] =
      some { reader with place := .quoted (text ++ ['"']) } := by
  simp [readAll, read, hplace, hdelimiter.symm]

/-- A quote inside quotes ends the quoted text. -/
theorem read_closeQuote {text : Text} (hplace : reader.place = .quoted text) :
    reader.read delimiter '"' = some { reader with place := .afterQuote text } := by
  simp [read, hplace]

end Reader

end RelytIngest

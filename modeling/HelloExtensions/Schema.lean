import HelloExtensions.Registry

/-!
Schemas say how a value is laid out in bytes. A region is preceded by its own length, and
bytes that its content leaves in it are passed over; a list goes on for as long as whole items
follow. Some layouts depend on the length that a record further out declares, so a schema is
always read inside the records around it.
-/
namespace HelloExtensions

/-- A condition on the length that an enclosing record declares. -/
inductive LengthTest where
  | equals (n : Int)
  | positive
deriving DecidableEq, Repr

mutual

/-- The record that is `up` records further out than the innermost one declares the length
that a schema refers to. -/
inductive Schema where
  | uint (width : Nat)
  | code (registry : Registry)
  /-- All the bytes that are left. -/
  | rest
  /-- As many bytes as the declared length less `less`. -/
  | bytes (up less : Nat)
  /-- A content after its length, a number of `width` bytes. -/
  | region (width : Nat) (content : Schema)
  /-- As many items as there are. -/
  | many (item : Schema)
  /-- A list of one item. -/
  | single (item : Schema)
  /-- The content, or nothing where there is none. -/
  | optional (content : Schema)
  /-- The content if the declared length passes the test, or else nothing. -/
  | onlyIf (up : Nat) (test : LengthTest) (content : Schema)
  | ifElse (up : Nat) (test : LengthTest) (yes no : Schema)
  | record (fields : Fields)

/-- The fields of a record in their order. Only `field` takes up bytes. -/
inductive Fields where
  | done
  /-- A field that always holds this text. -/
  | label (name text : String) (more : Fields)
  /-- A field that holds the number of the type which the enclosing record has read. -/
  | typeNumber (name : String) (more : Fields)
  /-- The length that is declared around the record has to pass the test. -/
  | check (test : LengthTest) (more : Fields)
  | field (name : String) (schema : Schema) (more : Fields)

end

namespace Schema

/-- A number in two bytes, and a region whose length takes one or two. -/
def uint16 : Schema := .uint 2

def uint32 : Schema := .uint 4

def opaque8 : Schema := .region 1 .rest

def opaque16 : Schema := .region 2 .rest

def list8 (item : Schema) : Schema := .region 1 (.many item)

def list16 (item : Schema) : Schema := .region 2 (.many item)

end Schema

/-- The only field, or the last of several. -/
def Fields.last (name : String) (schema : Schema) : Fields := .field name schema .done

end HelloExtensions

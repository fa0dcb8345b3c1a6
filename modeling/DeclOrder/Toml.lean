/-!
# TOML values

The values that a TOML document is made of, and the ways in which tables grow while it is read. A
table comes from a header, from the front of a longer header or of a dotted key, or from one
value. Each field is defined once: a header opens a table that no other header, key or value
defined, and a dotted key leads only through tables that no header or value did.

Of numbers that are not whole, dates and times, which no setting is made of, only the text is kept.
Arrays of tables, which no setting admits, are left out.
-/

namespace DeclOrder

/-- Where a table comes from. -/
inductive TableOrigin where
  /-- The front of a longer header. -/
  | implied
  /-- The front of a dotted key. -/
  | dotted
  /-- A header. -/
  | header
  /-- A value. -/
  | inline
  deriving DecidableEq, Repr

/-- A TOML value. -/
inductive Toml where
  /-- A text. -/
  | string (value : String)
  /-- A whole number. -/
  | integer (value : Int)
  /-- A truth value. -/
  | boolean (value : Bool)
  /-- A number that is not whole, a date or a time, as it is written. -/
  | plain (text : String)
  /-- A list of values. -/
  | array (items : List Toml)
  /-- Named values in the order of their definitions. -/
  | table (origin : TableOrigin) (fields : List (String × Toml))
  deriving Inhabited

namespace Toml

/-- Named values in the order of their definitions. -/
abbrev Fields := List (String × Toml)

/-- The fields with another value for a name. -/
def replaceField (name : String) (value : Toml) (fields : Fields) : Fields :=
  fields.map fun field => if field.1 = name then (name, value) else field

/-- The fields after the value of a dotted key is defined. -/
def assign? (fields : Fields) (key : List String) (value : Toml) : Option Fields :=
  match key with
  | [] => none
  | [name] => if (fields.lookup name).isSome then none else some (fields ++ [(name, value)])
  | name :: rest =>
    match fields.lookup name with
    | none => (assign? [] rest value).map fun inner => fields ++ [(name, .table .dotted inner)]
    | some (.table origin inner) =>
      if origin = .implied ∨ origin = .dotted then
        (assign? inner rest value).map fun inner => replaceField name (.table origin inner) fields
      else none
    | some _ => none

/-- The fields after a header opens a table. -/
def openTable? (fields : Fields) (key : List String) : Option Fields :=
  match key with
  | [] => none
  | [name] =>
    match fields.lookup name with
    | none => some (fields ++ [(name, .table .header [])])
    | some (.table .implied inner) => some (replaceField name (.table .header inner) fields)
    | some _ => none
  | name :: rest =>
    match fields.lookup name with
    | none => (openTable? [] rest).map fun inner => fields ++ [(name, .table .implied inner)]
    | some (.table origin inner) =>
      if origin = .inline then none
      else (openTable? inner rest).map fun inner => replaceField name (.table origin inner) fields
    | some _ => none

/-- The fields after a change to the table that a header opened. -/
def within? (change : Fields → Option Fields) (header : List String) (fields : Fields) :
    Option Fields :=
  match header with
  | [] => change fields
  | name :: rest =>
    match fields.lookup name with
    | some (.table origin inner) =>
      (within? change rest inner).map fun inner => replaceField name (.table origin inner) fields
    | _ => none

end Toml

end DeclOrder

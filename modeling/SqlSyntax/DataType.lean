import SqlSyntax.Keyword

/-!
# Data types

What a type name of SQL stands for. Lengths go up to `2 ^ 32 - 1`, and the precision and scale of
an exact number up to `2 ^ 16 - 1`; a larger one counts as missing. Names that are not known are
`custom`, which keeps no spelling.
-/

namespace SqlSyntax

inductive DataType where
  | smallint | integer | bigint
  | real | double
  | decimal (precision scale : Option Nat)
  | numeric (precision scale : Option Nat)
  | char (length : Option Nat)
  | varchar (length : Option Nat)
  | text
  | blob
  | binary (length : Option Nat)
  | varbinary (length : Option Nat)
  | date | time | timestamp | datetime
  | boolean
  | custom
deriving DecidableEq, Inhabited

namespace DataType

/-- A precision or scale, if it is in range. -/
def digits (n : Option Nat) : Option Nat := n.filter (· < 0x10000)

/-- The type of a name, whose words have single blanks between them, and of its parameters. -/
def ofName (name : String) (first second : Option Nat) : DataType :=
  match foldCase name with
  | "SMALLINT" | "INT2" | "TINYINT" => .smallint
  | "INT" | "INTEGER" | "INT4" | "MEDIUMINT" => .integer
  | "BIGINT" | "INT8" | "UNSIGNED BIG INT" => .bigint
  | "REAL" => .real
  | "DOUBLE" | "DOUBLE PRECISION" | "FLOAT" | "FLOAT8" => .double
  | "DECIMAL" => .decimal (digits first) (digits second)
  | "NUMERIC" => .numeric (digits first) (digits second)
  | "CHAR" | "CHARACTER" | "NCHAR" => .char first
  | "VARCHAR" | "CHARACTER VARYING" | "NVARCHAR" | "VARYING CHARACTER" => .varchar first
  | "TEXT" | "CLOB" => .text
  | "BLOB" => .blob
  | "BINARY" => .binary first
  | "VARBINARY" => .varbinary first
  | "DATE" => .date
  | "TIME" => .time
  | "TIMESTAMP" => .timestamp
  | "DATETIME" => .datetime
  | "BOOLEAN" | "BOOL" => .boolean
  | _ => .custom

/-- A name with its length. -/
def withLength (name : String) : Option Nat → String
  | some n => s!"{name}({n})"
  | none => name

/-- A name with its precision and scale; a scale is shown only after a precision. -/
def withPrecision (name : String) : Option Nat → Option Nat → String
  | some p, some s => s!"{name}({p}, {s})"
  | some p, none => s!"{name}({p})"
  | none, _ => name

/-- The type in SQL. -/
def sql : DataType → String
  | .smallint => "SMALLINT"
  | .integer => "INTEGER"
  | .bigint => "BIGINT"
  | .real => "REAL"
  | .double => "DOUBLE"
  | .decimal p s => withPrecision "DECIMAL" p s
  | .numeric p s => withPrecision "NUMERIC" p s
  | .char n => withLength "CHAR" n
  | .varchar n => withLength "VARCHAR" n
  | .text => "TEXT"
  | .blob => "BLOB"
  | .binary n => withLength "BINARY" n
  | .varbinary n => withLength "VARBINARY" n
  | .date => "DATE"
  | .time => "TIME"
  | .timestamp => "TIMESTAMP"
  | .datetime => "DATETIME"
  | .boolean => "BOOLEAN"
  | .custom => "CUSTOM"

end DataType

end SqlSyntax

/-!
# Operators

Operators that a node carries, and how SQL spells them.
-/

namespace SqlSyntax

inductive BinaryOp where
  | add | sub | mul | div | mod
  | eq | notEq | lt | ltEq | gt | gtEq | is
  | and | or
  | concat | like | glob
  | bitAnd | bitOr | bitXor | leftShift | rightShift
deriving DecidableEq, Inhabited

namespace BinaryOp

def sql : BinaryOp → String
  | .add => "+"
  | .sub => "-"
  | .mul => "*"
  | .div => "/"
  | .mod => "%"
  | .eq => "="
  | .notEq => "!="
  | .lt => "<"
  | .ltEq => "<="
  | .gt => ">"
  | .gtEq => ">="
  | .is => "IS"
  | .and => "AND"
  | .or => "OR"
  | .concat => "||"
  | .like => "LIKE"
  | .glob => "GLOB"
  | .bitAnd => "&"
  | .bitOr => "|"
  | .bitXor => "^"
  | .leftShift => "<<"
  | .rightShift => ">>"

/-- Every binary operator. -/
def all : List BinaryOp := [
  .add, .sub, .mul, .div, .mod, .eq, .notEq, .lt, .ltEq, .gt, .gtEq, .is, .and, .or, .concat,
  .like, .glob, .bitAnd, .bitOr, .bitXor, .leftShift, .rightShift]

end BinaryOp

inductive UnaryOp where
  | neg | plus | not | bitNot
deriving DecidableEq, Inhabited

namespace UnaryOp

def sql : UnaryOp → String
  | .neg => "-"
  | .plus => "+"
  | .not => "NOT"
  | .bitNot => "~"

/-- Every unary operator. -/
def all : List UnaryOp := [.neg, .plus, .not, .bitNot]

end UnaryOp

inductive Operator where
  | binary (op : BinaryOp)
  | unary (op : UnaryOp)
deriving DecidableEq, Inhabited

def Operator.sql : Operator → String
  | .binary op => op.sql
  | .unary op => op.sql

end SqlSyntax

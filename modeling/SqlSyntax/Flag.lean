/-!
# Flags

Modifiers of a node, as a set in 29 bits. Bit `i` stands for the flag with index `i`; a number is
read without its further bits.

Most flags are named for the words that set them. `hasAlias` says that the last child of a node is
its alias, `isSubquery` that a query in parentheses stands for an expression or a table, `negated`
that the operator has a `NOT`, `starArgs` that the only argument of a call is `*`, and
`parenthesized` that an expression without a node for its parentheses was written in some.
-/

namespace SqlSyntax

inductive Flag where
  | distinct | all | recursive | hasAlias | isSubquery | negated | ifExists | ifNotExists
  | temporary | unique | descending | ascending | nullsFirst | nullsLast | natural | outer
  | starArgs | defaultValues | queryPlan | before | after | insteadOf | forEachRow
  | autoincrement | withoutRowid | cascade | restrict | replace | parenthesized
deriving DecidableEq, Inhabited

namespace Flag

/-- Every flag, in the order of the bits. -/
def inOrder : List Flag := [
  .distinct, .all, .recursive, .hasAlias, .isSubquery, .negated, .ifExists, .ifNotExists,
  .temporary, .unique, .descending, .ascending, .nullsFirst, .nullsLast, .natural, .outer,
  .starArgs, .defaultValues, .queryPlan, .before, .after, .insteadOf, .forEachRow,
  .autoincrement, .withoutRowid, .cascade, .restrict, .replace, .parenthesized]

/-- The bit of a flag. -/
def index : Flag → Nat
  | .distinct => 0
  | .all => 1
  | .recursive => 2
  | .hasAlias => 3
  | .isSubquery => 4
  | .negated => 5
  | .ifExists => 6
  | .ifNotExists => 7
  | .temporary => 8
  | .unique => 9
  | .descending => 10
  | .ascending => 11
  | .nullsFirst => 12
  | .nullsLast => 13
  | .natural => 14
  | .outer => 15
  | .starArgs => 16
  | .defaultValues => 17
  | .queryPlan => 18
  | .before => 19
  | .after => 20
  | .insteadOf => 21
  | .forEachRow => 22
  | .autoincrement => 23
  | .withoutRowid => 24
  | .cascade => 25
  | .restrict => 26
  | .replace => 27
  | .parenthesized => 28

/-- The name that listings of a tree show. -/
def name : Flag → String
  | .distinct => "DISTINCT"
  | .all => "ALL"
  | .recursive => "RECURSIVE"
  | .hasAlias => "HAS_ALIAS"
  | .isSubquery => "IS_SUBQUERY"
  | .negated => "NEGATED"
  | .ifExists => "IF_EXISTS"
  | .ifNotExists => "IF_NOT_EXISTS"
  | .temporary => "TEMPORARY"
  | .unique => "UNIQUE"
  | .descending => "DESCENDING"
  | .ascending => "ASCENDING"
  | .nullsFirst => "NULLS_FIRST"
  | .nullsLast => "NULLS_LAST"
  | .natural => "NATURAL"
  | .outer => "OUTER"
  | .starArgs => "STAR_ARGS"
  | .defaultValues => "DEFAULT_VALUES"
  | .queryPlan => "QUERY_PLAN"
  | .before => "BEFORE"
  | .after => "AFTER"
  | .insteadOf => "INSTEAD_OF"
  | .forEachRow => "FOR_EACH_ROW"
  | .autoincrement => "AUTOINCREMENT"
  | .withoutRowid => "WITHOUT_ROWID"
  | .cascade => "CASCADE"
  | .restrict => "RESTRICT"
  | .replace => "REPLACE"
  | .parenthesized => "PARENTHESIZED"

end Flag

/-- A set of flags. -/
abbrev Flags := BitVec 29

namespace Flags

def empty : Flags := 0

/-- The set with just one flag. -/
def only (f : Flag) : Flags := BitVec.twoPow 29 f.index

def has (s : Flags) (f : Flag) : Bool := s.getLsbD f.index

def insert (s : Flags) (f : Flag) : Flags := s ||| only f

/-- Whether every flag of the second set is in the first. -/
def contains (s t : Flags) : Bool := s &&& t == t

/-- The first set without the flags of the second. -/
def without (s t : Flags) : Flags := s &&& ~~~t

/-- The flags of a set, in the order of the bits. -/
def toList (s : Flags) : List Flag := Flag.inOrder.filter s.has

/-- The set as listings of a tree show it. -/
def render (s : Flags) : String :=
  "SemanticFlags(" ++ " | ".intercalate (s.toList.map Flag.name) ++ ")"

end Flags

end SqlSyntax

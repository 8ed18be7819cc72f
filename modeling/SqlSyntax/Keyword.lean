/-!
# Keywords

Words with a meaning of their own. A word is a keyword in any case of its letters: words are
compared by their upper-case form, where only the letters `a` to `z` have one. A reserved keyword is
never a bare name; any keyword may follow a dot in a qualified name.
-/

namespace SqlSyntax

/-- The word with its ASCII letters in upper case. -/
def foldCase (word : String) : String := word.map Char.toUpper

/-- Whether two words differ at most in the case of ASCII letters. -/
def sameWord (a b : String) : Bool := foldCase a == foldCase b

inductive Keyword where
  | SELECT | FROM | WHERE | ORDER | BY | GROUP | HAVING | LIMIT | OFFSET | DISTINCT | ALL | JOIN
  | INNER | LEFT | RIGHT | FULL | OUTER | CROSS | NATURAL | ON | USING | UNION | INTERSECT
  | EXCEPT | INSERT | INTO | VALUES | UPDATE | SET | DELETE | RETURNING | REPLACE | CREATE | DROP
  | ALTER | TRUNCATE | TABLE | INDEX | VIEW | TRIGGER | SCHEMA | DATABASE | RENAME | TO | ADD
  | COLUMN | PRIMARY | KEY | FOREIGN | REFERENCES | UNIQUE | CHECK | DEFAULT | CONSTRAINT
  | CASCADE | RESTRICT | AUTOINCREMENT | COLLATE | WITHOUT | AND | OR | NOT | IN | BETWEEN | LIKE
  | GLOB | ESCAPE | IS | NULL | TRUE | FALSE | EXISTS | ASC | DESC | NULLS | FIRST | LAST | INT
  | INTEGER | SMALLINT | BIGINT | REAL | DOUBLE | FLOAT | DECIMAL | NUMERIC | CHAR | VARCHAR
  | TEXT | BLOB | BOOLEAN | DATE | TIME | TIMESTAMP | DATETIME | IF | TEMPORARY | TEMP | CONFLICT
  | ABORT | ROLLBACK | FAIL | IGNORE | AS | CASE | WHEN | THEN | ELSE | END | CAST | EXTRACT
  | BEGIN | COMMIT | TRANSACTION | START | SAVEPOINT | RELEASE | DEFERRED | IMMEDIATE | EXCLUSIVE
  | WITH | RECURSIVE | OVER | PARTITION | WINDOW | BEFORE | AFTER | INSTEAD | OF | FOR | EACH
  | ROW | EXPLAIN | QUERY | PLAN | PRAGMA | VACUUM | ANALYZE | ATTACH | DETACH | REINDEX
deriving DecidableEq, Inhabited

namespace Keyword

/-- Every keyword. -/
def all : List Keyword := [
  .SELECT, .FROM, .WHERE, .ORDER, .BY, .GROUP, .HAVING, .LIMIT, .OFFSET, .DISTINCT, .ALL, .JOIN,
  .INNER, .LEFT, .RIGHT, .FULL, .OUTER, .CROSS, .NATURAL, .ON, .USING, .UNION, .INTERSECT,
  .EXCEPT, .INSERT, .INTO, .VALUES, .UPDATE, .SET, .DELETE, .RETURNING, .REPLACE, .CREATE, .DROP,
  .ALTER, .TRUNCATE, .TABLE, .INDEX, .VIEW, .TRIGGER, .SCHEMA, .DATABASE, .RENAME, .TO, .ADD,
  .COLUMN, .PRIMARY, .KEY, .FOREIGN, .REFERENCES, .UNIQUE, .CHECK, .DEFAULT, .CONSTRAINT,
  .CASCADE, .RESTRICT, .AUTOINCREMENT, .COLLATE, .WITHOUT, .AND, .OR, .NOT, .IN, .BETWEEN, .LIKE,
  .GLOB, .ESCAPE, .IS, .NULL, .TRUE, .FALSE, .EXISTS, .ASC, .DESC, .NULLS, .FIRST, .LAST, .INT,
  .INTEGER, .SMALLINT, .BIGINT, .REAL, .DOUBLE, .FLOAT, .DECIMAL, .NUMERIC, .CHAR, .VARCHAR,
  .TEXT, .BLOB, .BOOLEAN, .DATE, .TIME, .TIMESTAMP, .DATETIME, .IF, .TEMPORARY, .TEMP, .CONFLICT,
  .ABORT, .ROLLBACK, .FAIL, .IGNORE, .AS, .CASE, .WHEN, .THEN, .ELSE, .END, .CAST, .EXTRACT,
  .BEGIN, .COMMIT, .TRANSACTION, .START, .SAVEPOINT, .RELEASE, .DEFERRED, .IMMEDIATE, .EXCLUSIVE,
  .WITH, .RECURSIVE, .OVER, .PARTITION, .WINDOW, .BEFORE, .AFTER, .INSTEAD, .OF, .FOR, .EACH,
  .ROW, .EXPLAIN, .QUERY, .PLAN, .PRAGMA, .VACUUM, .ANALYZE, .ATTACH, .DETACH, .REINDEX]

/-- The word in upper case. -/
def spelling : Keyword → String
  | .SELECT => "SELECT"
  | .FROM => "FROM"
  | .WHERE => "WHERE"
  | .ORDER => "ORDER"
  | .BY => "BY"
  | .GROUP => "GROUP"
  | .HAVING => "HAVING"
  | .LIMIT => "LIMIT"
  | .OFFSET => "OFFSET"
  | .DISTINCT => "DISTINCT"
  | .ALL => "ALL"
  | .JOIN => "JOIN"
  | .INNER => "INNER"
  | .LEFT => "LEFT"
  | .RIGHT => "RIGHT"
  | .FULL => "FULL"
  | .OUTER => "OUTER"
  | .CROSS => "CROSS"
  | .NATURAL => "NATURAL"
  | .ON => "ON"
  | .USING => "USING"
  | .UNION => "UNION"
  | .INTERSECT => "INTERSECT"
  | .EXCEPT => "EXCEPT"
  | .INSERT => "INSERT"
  | .INTO => "INTO"
  | .VALUES => "VALUES"
  | .UPDATE => "UPDATE"
  | .SET => "SET"
  | .DELETE => "DELETE"
  | .RETURNING => "RETURNING"
  | .REPLACE => "REPLACE"
  | .CREATE => "CREATE"
  | .DROP => "DROP"
  | .ALTER => "ALTER"
  | .TRUNCATE => "TRUNCATE"
  | .TABLE => "TABLE"
  | .INDEX => "INDEX"
  | .VIEW => "VIEW"
  | .TRIGGER => "TRIGGER"
  | .SCHEMA => "SCHEMA"
  | .DATABASE => "DATABASE"
  | .RENAME => "RENAME"
  | .TO => "TO"
  | .ADD => "ADD"
  | .COLUMN => "COLUMN"
  | .PRIMARY => "PRIMARY"
  | .KEY => "KEY"
  | .FOREIGN => "FOREIGN"
  | .REFERENCES => "REFERENCES"
  | .UNIQUE => "UNIQUE"
  | .CHECK => "CHECK"
  | .DEFAULT => "DEFAULT"
  | .CONSTRAINT => "CONSTRAINT"
  | .CASCADE => "CASCADE"
  | .RESTRICT => "RESTRICT"
  | .AUTOINCREMENT => "AUTOINCREMENT"
  | .COLLATE => "COLLATE"
  | .WITHOUT => "WITHOUT"
  | .AND => "AND"
  | .OR => "OR"
  | .NOT => "NOT"
  | .IN => "IN"
  | .BETWEEN => "BETWEEN"
  | .LIKE => "LIKE"
  | .GLOB => "GLOB"
  | .ESCAPE => "ESCAPE"
  | .IS => "IS"
  | .NULL => "NULL"
  | .TRUE => "TRUE"
  | .FALSE => "FALSE"
  | .EXISTS => "EXISTS"
  | .ASC => "ASC"
  | .DESC => "DESC"
  | .NULLS => "NULLS"
  | .FIRST => "FIRST"
  | .LAST => "LAST"
  | .INT => "INT"
  | .INTEGER => "INTEGER"
  | .SMALLINT => "SMALLINT"
  | .BIGINT => "BIGINT"
  | .REAL => "REAL"
  | .DOUBLE => "DOUBLE"
  | .FLOAT => "FLOAT"
  | .DECIMAL => "DECIMAL"
  | .NUMERIC => "NUMERIC"
  | .CHAR => "CHAR"
  | .VARCHAR => "VARCHAR"
  | .TEXT => "TEXT"
  | .BLOB => "BLOB"
  | .BOOLEAN => "BOOLEAN"
  | .DATE => "DATE"
  | .TIME => "TIME"
  | .TIMESTAMP => "TIMESTAMP"
  | .DATETIME => "DATETIME"
  | .IF => "IF"
  | .TEMPORARY => "TEMPORARY"
  | .TEMP => "TEMP"
  | .CONFLICT => "CONFLICT"
  | .ABORT => "ABORT"
  | .ROLLBACK => "ROLLBACK"
  | .FAIL => "FAIL"
  | .IGNORE => "IGNORE"
  | .AS => "AS"
  | .CASE => "CASE"
  | .WHEN => "WHEN"
  | .THEN => "THEN"
  | .ELSE => "ELSE"
  | .END => "END"
  | .CAST => "CAST"
  | .EXTRACT => "EXTRACT"
  | .BEGIN => "BEGIN"
  | .COMMIT => "COMMIT"
  | .TRANSACTION => "TRANSACTION"
  | .START => "START"
  | .SAVEPOINT => "SAVEPOINT"
  | .RELEASE => "RELEASE"
  | .DEFERRED => "DEFERRED"
  | .IMMEDIATE => "IMMEDIATE"
  | .EXCLUSIVE => "EXCLUSIVE"
  | .WITH => "WITH"
  | .RECURSIVE => "RECURSIVE"
  | .OVER => "OVER"
  | .PARTITION => "PARTITION"
  | .WINDOW => "WINDOW"
  | .BEFORE => "BEFORE"
  | .AFTER => "AFTER"
  | .INSTEAD => "INSTEAD"
  | .OF => "OF"
  | .FOR => "FOR"
  | .EACH => "EACH"
  | .ROW => "ROW"
  | .EXPLAIN => "EXPLAIN"
  | .QUERY => "QUERY"
  | .PLAN => "PLAN"
  | .PRAGMA => "PRAGMA"
  | .VACUUM => "VACUUM"
  | .ANALYZE => "ANALYZE"
  | .ATTACH => "ATTACH"
  | .DETACH => "DETACH"
  | .REINDEX => "REINDEX"

/-- The keyword that a word spells, in any case. -/
def ofWord? (word : String) : Option Keyword :=
  let folded := foldCase word
  all.find? (·.spelling == folded)

/-- Keywords that are never a bare name. -/
def isReserved : Keyword → Bool
  | .SELECT | .FROM | .WHERE | .ORDER | .BY | .GROUP | .HAVING | .LIMIT | .OFFSET | .DISTINCT
  | .ALL | .JOIN | .INNER | .LEFT | .RIGHT | .FULL | .OUTER | .CROSS | .NATURAL | .ON | .USING
  | .UNION | .INTERSECT | .EXCEPT | .INSERT | .INTO | .VALUES | .UPDATE | .SET | .DELETE
  | .RETURNING | .CREATE | .DROP | .ALTER | .TABLE | .INDEX | .PRIMARY | .FOREIGN | .REFERENCES
  | .UNIQUE | .CHECK | .DEFAULT | .CONSTRAINT | .COLLATE | .AND | .OR | .NOT | .IN | .BETWEEN
  | .LIKE | .GLOB | .ESCAPE | .IS | .NULL | .TRUE | .FALSE | .EXISTS | .AS | .CASE | .WHEN
  | .THEN | .ELSE | .END | .CAST | .EXTRACT | .WITH | .WINDOW => true
  | _ => false

/-- Keywords that begin a statement. -/
def startsStatement : Keyword → Bool
  | .SELECT | .WITH | .INSERT | .REPLACE | .UPDATE | .DELETE | .CREATE | .DROP | .ALTER
  | .TRUNCATE | .BEGIN | .START | .COMMIT | .ROLLBACK | .SAVEPOINT | .RELEASE | .EXPLAIN
  | .VALUES | .SET | .PRAGMA | .VACUUM | .ANALYZE | .ATTACH | .DETACH | .REINDEX => true
  | _ => false

end Keyword

end SqlSyntax

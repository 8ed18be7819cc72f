import SqlSyntax.Grammar.Parser

/-!
# Names

Names of tables, columns and types, alone and in lists.
-/

namespace SqlSyntax

open SqlSyntax.Parser

/-- The texts of some tokens. -/
def tokenTexts (ts : List Token) : Parser (List Text) := ts.mapM tokenText

/-- Up to `n` parts of a qualified name after the first, each behind a dot. -/
def dottedParts (what : String) : Nat → Parser (List Token)
  | 0 => return []
  | n + 1 => do
    if ← consume .dot then
      let part ← expectNamePart what
      return part :: (← dottedParts what n)
    else return []

/-- `[[catalog.]schema.]name` as a node of a kind. -/
def objectName (kind : Kind) : Parser Tree := do
  let first ← expectName "name"
  let others ← dottedParts "name" 2
  let node ← nodeAt kind first
  let texts ← tokenTexts (first :: others)
  finish (← amend node (·.withName texts))

/-- The star behind a dot, where it is allowed. -/
def columnStar (allowStar : Bool) : Parser (List Token × Bool) := do
  if allowStar then
    discard advance
    return ([], true)
  else unexpected "column name"

/-- The parts of a column name after the first, of which there may be up to `n`, and whether a star
ends them. -/
def columnParts (allowStar : Bool) : Nat → Parser (List Token × Bool)
  | 0 => do
    if ← consume .dot then
      if ← sees .star then columnStar allowStar else unexpected "end of qualified name"
    else return ([], false)
  | n + 1 => do
    if ← consume .dot then
      if ← sees .star then columnStar allowStar
      else
        let part ← expectNamePart "column name"
        let (parts, star) ← columnParts allowStar n
        return (part :: parts, star)
    else return ([], false)

/-- `[[[catalog.]schema.]table.]column`, or `table.*` with the same qualifiers where a star is
allowed. -/
def columnReference (allowStar : Bool) : Parser Tree := do
  let first ← expectName "column name"
  let (parts, star) ← columnParts allowStar 3
  if star && parts.length ≥ 3 then fail (.atToken .tooManyQualifiers first)
  else
    let texts ← tokenTexts (first :: parts)
    let node ← nodeAt (if star then .qualifiedWildcard else .columnRef) first
    finish (← amend node (·.withColumn (if star then texts ++ [.none] else texts)))

/-- Whether names with dots up to a star begin with these tokens. -/
def startsStar : List Token → Bool
  | t :: dot :: rest =>
    t.isNamePart && dot.kind == .dot &&
      (rest.head?.any (·.kind == .star) || startsStar rest)
  | _ => false

/-- Whether the next tokens are `table.*` with any number of qualifiers. -/
def seesQualifiedStar : Parser Bool := do
  let rest := (← get).rest
  return rest.head?.any Token.isName && startsStar rest

/-- `ASC` or `DESC` on a node, if one follows. -/
def direction (node : Tree) : Parser Tree := do
  if ← consumeKeyword .DESC then flag node .descending
  else if ← consumeKeyword .ASC then flag node .ascending
  else return node

/-- A name of a column. -/
def columnName : Parser Tree := do
  namedNode .identifier (← expectName "column name")

/-- `(name, ...)`, where each name may have a direction. -/
def columnList : Parser Tree := do
  let list ← nodeAt .columnList (← expect .leftParen "'('")
  let list ← attachList (do direction (← columnName)) list
  discard <| expect .rightParen "')'"
  finish list

/-- An alias after `AS`, or without it if it is no keyword. -/
def aliasName? : Parser (Option Token) := do
  if ← consumeKeyword .AS then
    match ← take? .string with
    | some t => return some t
    | none => return some (← expectName "alias")
  else if (← sees .identifier) || (← sees .quotedIdentifier) then
    return some (← expectName "alias")
  else return none

/-- A tree with an alias under it. -/
def aliased (t : Tree) (name : Token) : Parser Tree := do
  let label ← namedNode .alias name
  finish (← flag (← attach t label) .hasAlias)

/-- The tree of a table with its alias, if one follows. -/
def withAlias (t : Tree) : Parser Tree := do
  match ← aliasName? with
  | some name => aliased t name
  | none => return t

end SqlSyntax

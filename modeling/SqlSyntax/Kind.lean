/-!
# Kinds of nodes

What a node of a syntax tree stands for: a statement, a clause, a schema element, an expression, a
name or a literal.
-/

namespace SqlSyntax

inductive Kind where
  -- statements
  | selectStmt | compoundSelect | insertStmt | updateStmt | deleteStmt | createTableStmt
  | createIndexStmt | createViewStmt | createTriggerStmt | createSchemaStmt | dropStmt
  | alterTableStmt | truncateStmt | beginStmt | commitStmt | rollbackStmt | savepointStmt
  | releaseStmt | explainStmt | valuesStmt | setStmt | pragmaStmt | vacuumStmt | analyzeStmt
  | attachStmt | detachStmt | reindexStmt
  -- clauses
  | withClause | commonTableExpr | selectList | resultColumn | fromClause | whereClause
  | groupByClause | havingClause | orderByClause | orderByItem | limitClause | offsetClause
  | innerJoin | leftJoin | rightJoin | fullJoin | crossJoin | onCondition | usingClause
  | columnList | valuesClause | valuesRow | returningClause | setClause | assignment
  | conflictAction | windowSpec | partitionByClause
  -- schema definitions
  | columnDef | typeName | primaryKeyConstraint | notNullConstraint | nullConstraint
  | uniqueConstraint | checkConstraint | defaultConstraint | foreignKeyConstraint
  | referencesClause | collateConstraint | objectName | indexedColumn | renameTable
  | renameColumn | addColumn | dropColumn | triggerEvent | triggerBody
  -- expressions
  | binaryExpr | unaryExpr | parenExpr | functionCall | castExpr | extractExpr | caseExpr
  | whenClause | elseClause | existsExpr | positionExpr | substringExpr | inExpr | betweenExpr
  | likeExpr | isExpr | collateExpr | subqueryExpr | exprList | rowValue | alias
  -- references
  | columnRef | tableRef | derivedTable | wildcard | qualifiedWildcard | identifier | parameter
  -- literals
  | integerLiteral | floatLiteral | stringLiteral | blobLiteral | booleanLiteral | nullLiteral
deriving DecidableEq, Inhabited

namespace Kind

/-- Every kind. -/
def all : List Kind := [
  .selectStmt, .compoundSelect, .insertStmt, .updateStmt, .deleteStmt, .createTableStmt,
  .createIndexStmt, .createViewStmt, .createTriggerStmt, .createSchemaStmt, .dropStmt,
  .alterTableStmt, .truncateStmt, .beginStmt, .commitStmt, .rollbackStmt, .savepointStmt,
  .releaseStmt, .explainStmt, .valuesStmt, .setStmt, .pragmaStmt, .vacuumStmt, .analyzeStmt,
  .attachStmt, .detachStmt, .reindexStmt, .withClause, .commonTableExpr, .selectList,
  .resultColumn, .fromClause, .whereClause, .groupByClause, .havingClause, .orderByClause,
  .orderByItem, .limitClause, .offsetClause, .innerJoin, .leftJoin, .rightJoin, .fullJoin,
  .crossJoin, .onCondition, .usingClause, .columnList, .valuesClause, .valuesRow,
  .returningClause, .setClause, .assignment, .conflictAction, .windowSpec, .partitionByClause,
  .columnDef, .typeName, .primaryKeyConstraint, .notNullConstraint, .nullConstraint,
  .uniqueConstraint, .checkConstraint, .defaultConstraint, .foreignKeyConstraint,
  .referencesClause, .collateConstraint, .objectName, .indexedColumn, .renameTable,
  .renameColumn, .addColumn, .dropColumn, .triggerEvent, .triggerBody, .binaryExpr, .unaryExpr,
  .parenExpr, .functionCall, .castExpr, .extractExpr, .caseExpr, .whenClause, .elseClause,
  .existsExpr, .positionExpr, .substringExpr, .inExpr, .betweenExpr, .likeExpr, .isExpr,
  .collateExpr, .subqueryExpr, .exprList, .rowValue, .alias, .columnRef, .tableRef,
  .derivedTable, .wildcard, .qualifiedWildcard, .identifier, .parameter, .integerLiteral,
  .floatLiteral, .stringLiteral, .blobLiteral, .booleanLiteral, .nullLiteral]

/-- The name that listings of a tree show. -/
def name : Kind → String
  | .selectStmt => "SelectStmt"
  | .compoundSelect => "CompoundSelect"
  | .insertStmt => "InsertStmt"
  | .updateStmt => "UpdateStmt"
  | .deleteStmt => "DeleteStmt"
  | .createTableStmt => "CreateTableStmt"
  | .createIndexStmt => "CreateIndexStmt"
  | .createViewStmt => "CreateViewStmt"
  | .createTriggerStmt => "CreateTriggerStmt"
  | .createSchemaStmt => "CreateSchemaStmt"
  | .dropStmt => "DropStmt"
  | .alterTableStmt => "AlterTableStmt"
  | .truncateStmt => "TruncateStmt"
  | .beginStmt => "BeginStmt"
  | .commitStmt => "CommitStmt"
  | .rollbackStmt => "RollbackStmt"
  | .savepointStmt => "SavepointStmt"
  | .releaseStmt => "ReleaseStmt"
  | .explainStmt => "ExplainStmt"
  | .valuesStmt => "ValuesStmt"
  | .setStmt => "SetStmt"
  | .pragmaStmt => "PragmaStmt"
  | .vacuumStmt => "VacuumStmt"
  | .analyzeStmt => "AnalyzeStmt"
  | .attachStmt => "AttachStmt"
  | .detachStmt => "DetachStmt"
  | .reindexStmt => "ReindexStmt"
  | .withClause => "WithClause"
  | .commonTableExpr => "CommonTableExpr"
  | .selectList => "SelectList"
  | .resultColumn => "ResultColumn"
  | .fromClause => "FromClause"
  | .whereClause => "WhereClause"
  | .groupByClause => "GroupByClause"
  | .havingClause => "HavingClause"
  | .orderByClause => "OrderByClause"
  | .orderByItem => "OrderByItem"
  | .limitClause => "LimitClause"
  | .offsetClause => "OffsetClause"
  | .innerJoin => "InnerJoin"
  | .leftJoin => "LeftJoin"
  | .rightJoin => "RightJoin"
  | .fullJoin => "FullJoin"
  | .crossJoin => "CrossJoin"
  | .onCondition => "OnCondition"
  | .usingClause => "UsingClause"
  | .columnList => "ColumnList"
  | .valuesClause => "ValuesClause"
  | .valuesRow => "ValuesRow"
  | .returningClause => "ReturningClause"
  | .setClause => "SetClause"
  | .assignment => "Assignment"
  | .conflictAction => "ConflictAction"
  | .windowSpec => "WindowSpec"
  | .partitionByClause => "PartitionByClause"
  | .columnDef => "ColumnDef"
  | .typeName => "TypeName"
  | .primaryKeyConstraint => "PrimaryKeyConstraint"
  | .notNullConstraint => "NotNullConstraint"
  | .nullConstraint => "NullConstraint"
  | .uniqueConstraint => "UniqueConstraint"
  | .checkConstraint => "CheckConstraint"
  | .defaultConstraint => "DefaultConstraint"
  | .foreignKeyConstraint => "ForeignKeyConstraint"
  | .referencesClause => "ReferencesClause"
  | .collateConstraint => "CollateConstraint"
  | .objectName => "ObjectName"
  | .indexedColumn => "IndexedColumn"
  | .renameTable => "RenameTable"
  | .renameColumn => "RenameColumn"
  | .addColumn => "AddColumn"
  | .dropColumn => "DropColumn"
  | .triggerEvent => "TriggerEvent"
  | .triggerBody => "TriggerBody"
  | .binaryExpr => "BinaryExpr"
  | .unaryExpr => "UnaryExpr"
  | .parenExpr => "ParenExpr"
  | .functionCall => "FunctionCall"
  | .castExpr => "CastExpr"
  | .extractExpr => "ExtractExpr"
  | .caseExpr => "CaseExpr"
  | .whenClause => "WhenClause"
  | .elseClause => "ElseClause"
  | .existsExpr => "ExistsExpr"
  | .positionExpr => "PositionExpr"
  | .substringExpr => "SubstringExpr"
  | .inExpr => "InExpr"
  | .betweenExpr => "BetweenExpr"
  | .likeExpr => "LikeExpr"
  | .isExpr => "IsExpr"
  | .collateExpr => "CollateExpr"
  | .subqueryExpr => "SubqueryExpr"
  | .exprList => "ExprList"
  | .rowValue => "RowValue"
  | .alias => "Alias"
  | .columnRef => "ColumnRef"
  | .tableRef => "TableRef"
  | .derivedTable => "DerivedTable"
  | .wildcard => "Wildcard"
  | .qualifiedWildcard => "QualifiedWildcard"
  | .identifier => "Identifier"
  | .parameter => "Parameter"
  | .integerLiteral => "IntegerLiteral"
  | .floatLiteral => "FloatLiteral"
  | .stringLiteral => "StringLiteral"
  | .blobLiteral => "BlobLiteral"
  | .booleanLiteral => "BooleanLiteral"
  | .nullLiteral => "NullLiteral"

/-- The kind of a name. -/
def ofName? (name : String) : Option Kind := all.find? (·.name == name)

/-- Kinds that can be the root of a statement. -/
def isStatement : Kind → Bool
  | .selectStmt | .compoundSelect | .insertStmt | .updateStmt | .deleteStmt | .createTableStmt
  | .createIndexStmt | .createViewStmt | .createTriggerStmt | .createSchemaStmt | .dropStmt
  | .alterTableStmt | .truncateStmt | .beginStmt | .commitStmt | .rollbackStmt | .savepointStmt
  | .releaseStmt | .explainStmt | .valuesStmt | .setStmt | .pragmaStmt | .vacuumStmt
  | .analyzeStmt | .attachStmt | .detachStmt | .reindexStmt => true
  | _ => false

/-- Joins. -/
def isJoin : Kind → Bool
  | .innerJoin | .leftJoin | .rightJoin | .fullJoin | .crossJoin => true
  | _ => false

/-- Literal values. -/
def isLiteral : Kind → Bool
  | .integerLiteral | .floatLiteral | .stringLiteral | .blobLiteral | .booleanLiteral
  | .nullLiteral => true
  | _ => false

/-- Kinds that begin a query block: aggregates and clauses below them belong to another query. -/
def isQueryBlock : Kind → Bool
  | .selectStmt | .compoundSelect | .subqueryExpr | .derivedTable => true
  | _ => false

/-- Kinds of whole queries. -/
def isQuery : Kind → Bool
  | .selectStmt | .compoundSelect | .valuesStmt => true
  | _ => false

end Kind

end SqlSyntax

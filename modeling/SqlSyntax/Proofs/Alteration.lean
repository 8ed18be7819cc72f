import SqlSyntax.Proofs.Recovery
import SqlSyntax.Proofs.Runs

/-!
# A table that is altered in no way

`ALTER TABLE` with a name takes the token that should tell the alteration before it looks at it.
Where that token is a semicolon, the statement fails behind it, and the reader, which skips one
token in any case, goes on inside the next statement.
-/

namespace SqlSyntax

open SqlSyntax.Parser

/-- Up to so many parts of a name, each behind a dot. -/
inductive DottedParts : Nat → List Token → Prop
  | nil (n : Nat) : DottedParts n []
  | cons {n : Nat} {dot part : Token} {ts : List Token} (hdot : dot.kind = .dot)
    (hpart : part.isNamePart) (hts : DottedParts n ts) : DottedParts (n + 1) (dot :: part :: ts)

/-- The tokens of a name with up to two qualifiers. -/
inductive ObjectName : List Token → Prop
  | intro {first : Token} {ts : List Token} (hfirst : first.isName) (hts : DottedParts 2 ts) :
    ObjectName (first :: ts)

namespace Parser.Gives

variable {scope : Scope} {ts rest : List Token} {t : Token}

theorem dottedParts (what : String) {n : Nat} (h : DottedParts n ts)
    (hrest : rest.head?.map Token.kind ≠ some .dot)
    (hquotes : ∀ u ∈ ts, u.QuotesPass scope.config) :
    Gives scope (ts ++ rest) (SqlSyntax.dottedParts what n) fun us r =>
      (∀ u ∈ us, u ∈ ts) ∧ r = rest := by
  induction h with
  | nil n =>
    rw [List.nil_append]
    rcases n with _ | n
    · exact pure ⟨List.forall_mem_nil _, rfl⟩
    · exact (consume_false hrest).next (pure ⟨List.forall_mem_nil _, rfl⟩)
  | @cons n dot part ts hdot hpart hts ih =>
    have hconsume : Gives scope (dot :: part :: ts ++ rest) (consume .dot) fun b r =>
        b = true ∧ r = part :: ts ++ rest := (take? hdot).next (pure ⟨rfl, rfl⟩)
    have hpass : part.QuotesPass scope.config :=
      hquotes part (List.mem_cons_of_mem dot List.mem_cons_self)
    refine hconsume.next ((expectWord what hpart hpass).next ?_)
    refine (ih fun u hu =>
      hquotes u (List.mem_cons_of_mem dot (List.mem_cons_of_mem part hu))).bind ?_
    rintro us _ ⟨hus, rfl⟩
    refine pure ⟨List.forall_mem_cons.2 ⟨by simp, fun u hu => ?_⟩, rfl⟩
    exact List.mem_cons_of_mem dot (List.mem_cons_of_mem part (hus u hu))

/-- The tokens of a name are taken. -/
theorem objectName (kind : Kind) (h : ObjectName ts)
    (hrest : rest.head?.map Token.kind ≠ some .dot) (hquotes : ∀ u ∈ ts, u.QuotesPass scope.config)
    (hfits : scope.source.Fits) (hread : ∀ u ∈ ts, u.ReadFrom scope.source) :
    Gives scope (ts ++ rest) (SqlSyntax.objectName kind) fun _ r => r = rest := by
  obtain @⟨first, ts, hfirst, hts⟩ := h
  obtain ⟨hfirstQuotes, hquotes⟩ := List.forall_mem_cons.1 hquotes
  obtain ⟨hfirstRead, hread⟩ := List.forall_mem_cons.1 hread
  refine (expectWord "name" hfirst hfirstQuotes).next ?_
  refine (dottedParts "name" hts hrest hquotes).bind ?_
  rintro us _ ⟨hus, rfl⟩
  refine (newNode kind first.location first.span).bind ?_
  rintro node _ ⟨-, rfl⟩
  refine (tokenTexts hfits
    (List.forall_mem_cons.2 ⟨hfirstRead, fun u hu => hread u (hus u hu)⟩)).bind ?_
  rintro texts _ rfl
  refine (amend node _).bind ?_
  rintro node _ ⟨-, rfl⟩
  exact (finish node).weaken fun _ _ h => h.2

end Parser.Gives

namespace Schema

variable {scope : Scope} {alter table semicolon : Token} {name after : List Token}

/-- What an alteration fails with that is told by no word for one. -/
def missingAlteration (t : Token) : Failure := .error (.unexpected "RENAME, ADD or DROP" t)

/-- The token after the name is taken, also where it is a semicolon. -/
theorem alter_takes_semicolon (self : Nested) (halter : alter.kind = .keyword .ALTER)
    (htable : table.kind = .keyword .TABLE) (hname : ObjectName name)
    (hsemicolon : semicolon.kind = .semicolon)
    (hquotes : ∀ t ∈ name, t.QuotesPass scope.config) (hfits : scope.source.Fits)
    (hread : ∀ t ∈ name, t.ReadFrom scope.source) :
    Fails scope (alter :: table :: (name ++ semicolon :: after)) (Schema.alter self)
      (missingAlteration semicolon) after := by
  refine .after (Gives.expect _ halter) ?_
  rintro _ _ ⟨rfl, rfl⟩
  refine .after (Gives.discard ((Gives.expect _ htable).weaken fun _ _ h => h.2)) ?_
  rintro _ _ rfl
  refine .after (Gives.newNode .alterTableStmt _ _) ?_
  rintro statement _ ⟨-, rfl⟩
  have hdot : (semicolon :: after).head?.map Token.kind ≠ some .dot := by
    rw [List.head?_cons, Option.map_some, hsemicolon]
    decide
  refine .after (Gives.objectName .tableRef hname hdot hquotes hfits hread) ?_
  rintro object _ rfl
  refine .after (Gives.attach statement object) ?_
  rintro statement _ ⟨-, rfl⟩
  refine .after Gives.advance ?_
  rintro _ after ⟨rfl, rfl⟩
  have halteration : Fails scope after (alteration self semicolon) (missingAlteration semicolon)
      after := by
    unfold alteration
    rw [hsemicolon]
    exact .fail _
  exact halteration.bind

end Schema

namespace Script

variable {scope : Scope} {s : Progress} {ts : List Tree}
  {alter table semicolon : Token} {name after : List Token}

/-- The attempt at the statement fails behind the semicolon. -/
theorem next?_takes_semicolon (halter : alter.kind = .keyword .ALTER)
    (htable : table.kind = .keyword .TABLE) (hname : ObjectName name)
    (hsemicolon : semicolon.kind = .semicolon) (hquotes : ∀ t ∈ name, t.QuotesPass scope.config)
    (hopens : scope.Opens scope.depth) (hfits : scope.source.Fits)
    (hread : ∀ t ∈ name, t.ReadFrom scope.source)
    (hs : s.rest = alter :: table :: (name ++ semicolon :: after)) :
    ∃ p, next? scope s = .error (Schema.missingAlteration semicolon) p ∧
      p.rest = after := by
  have hpast : s.pastSemicolons = s := by
    unfold Progress.pastSemicolons
    rw [hs, Progress.past, halter, if_neg (by decide)]
  have hstatement : Fails scope s.rest (statement (Nested.upTo s.rest.length))
      (Schema.missingAlteration semicolon) after := by
    refine .deeper hopens ?_
    rw [hs]
    refine .after Gives.current ?_
    rintro _ _ ⟨rfl, rfl⟩
    simp only [List.head?_cons, Token.keyword?, halter, Statement.ofKeyword]
    exact Schema.alter_takes_semicolon _ halter htable hname hsemicolon hquotes hfits hread
  obtain ⟨p, hrun, hp⟩ := hstatement s rfl
  refine ⟨p, ?_, hp⟩
  have hnext : nextStatement scope s = .error (Schema.missingAlteration semicolon) p := hrun
  rw [next?_run, hpast, if_neg (by rw [hs]; exact List.cons_ne_nil _ _), hnext]

end Script

/-- After `ALTER TABLE`, a name and a semicolon there is one error, at the semicolon. The first of
the tokens after it is skipped in any case, and statements are looked for from the next place where
one may begin. -/
theorem Session.parseAll_skips_after_bare_alter (s : Session) (source : Source)
    {alter table semicolon : Token} {name after : List Token}
    (htokens : tokenize source = alter :: table :: (name ++ semicolon :: after))
    (halter : alter.kind = .keyword .ALTER) (htable : table.kind = .keyword .TABLE)
    (hname : ObjectName name) (hsemicolon : semicolon.kind = .semicolon)
    (hquotes : ∀ t ∈ name, t.QuotesPass s.config)
    (hstack : ∀ taken, s.config.exceedsStack (s.stack .all taken 0) = false)
    (hfits : source.byteSize < 2 ^ 32) :
    ∃ p : Progress, p.rest = (Script.skipFrom 0 true after).2 ∧
      Script.recover (s.scope .all source) (s.start (tokenize source)) =
        let (roots, failures, q) := Script.recover (s.scope .all source) p
        (roots, Schema.missingAlteration semicolon :: failures, q) := by
  have hfits : source.Fits := Nat.lt_trans hfits (Nat.pow_lt_pow_right (by decide) (by decide))
  have hread : ∀ t ∈ name, t.ReadFrom source := fun t ht =>
    readFrom_of_mem_tokenize (htokens ▸ by simp [ht])
  have hopens : (s.scope .all source).Opens 0 :=
    ⟨Nat.lt_of_lt_of_le Nat.zero_lt_one (Nat.le_max_right _ _), hstack⟩
  obtain ⟨p, hnext, hp⟩ := Script.next?_takes_semicolon (s := s.start (tokenize source)) halter
    htable hname hsemicolon hquotes hopens hfits hread htokens
  refine ⟨p.synchronized, hp ▸ rfl, ?_⟩
  rw [Script.recover_eq (s.scope .all source) (s.start_sound source), hnext]

/-- The whole statement after the semicolon is skipped with its first token. -/
theorem Session.parseAll_skips_after_bare_alter_select :
    ∃ (semicolon : Token) (p : Progress), semicolon.kind = .semicolon ∧ p.rest = [] ∧
      Script.recover (({} : Session).scope .all "ALTER TABLE t; SELECT 1".toList)
        (({} : Session).start (tokenize "ALTER TABLE t; SELECT 1".toList)) =
        let (roots, failures, q) :=
          Script.recover (({} : Session).scope .all "ALTER TABLE t; SELECT 1".toList) p
        (roots, Schema.missingAlteration semicolon :: failures, q) := by
  have hkinds : ((tokenize "ALTER TABLE t; SELECT 1".toList).take 4).map Token.kind =
      [.keyword .ALTER, .keyword .TABLE, .identifier, .semicolon] := by decide +kernel
  have hskip : (Script.skipFrom 0 true ((tokenize "ALTER TABLE t; SELECT 1".toList).drop 4)).2 =
      [] := by decide +kernel
  have happend := List.take_append_drop 4 (tokenize "ALTER TABLE t; SELECT 1".toList)
  obtain ⟨alter, _, htake, halter, hkinds⟩ := List.map_eq_cons_iff.1 hkinds
  obtain ⟨table, _, rfl, htable, hkinds⟩ := List.map_eq_cons_iff.1 hkinds
  obtain ⟨name, _, rfl, hname, hkinds⟩ := List.map_eq_cons_iff.1 hkinds
  obtain ⟨semicolon, _, rfl, hsemicolon, hkinds⟩ := List.map_eq_cons_iff.1 hkinds
  obtain rfl := List.map_eq_nil_iff.1 hkinds
  rw [htake] at happend
  have hquotes : ∀ t ∈ [name], t.QuotesPass ({} : Config) := by
    rintro t - hstrict
    cases hstrict
  have hobject : ObjectName [name] := .intro (by rw [Token.isName, hname]) (.nil 2)
  obtain ⟨p, hp, hrun⟩ := ({} : Session).parseAll_skips_after_bare_alter _ happend.symm halter
    htable hobject hsemicolon hquotes (fun _ => rfl) (by decide +kernel)
  exact ⟨semicolon, p, hsemicolon, hp.trans hskip, hrun⟩

/-- A query is answered alone, but not after an `ALTER TABLE` with only a name: that reports one
error and no statement. -/
theorem Session.bare_alter_swallows_select :
    (({} : Session).parseAll "ALTER TABLE t; SELECT 1".toList).1.toOption.map
        (fun r => (r.statements.length, r.errors.length)) = some (0, 1) ∧
      (({} : Session).parseAll "SELECT 1".toList).1.toOption.map
        (fun r => (r.statements.length, r.errors.length)) = some (1, 0) := by
  decide +kernel

end SqlSyntax

import Mathlib.Data.List.DropRight
import SqlSyntax.Proofs.EntryPoints

/-!
# Lines and columns

The reader of tokens moves a mark along the characters that it passes, and `Location.atOffset` looks
for the line ends in all that is before an offset. Both tell the same place between two characters
(`Location.atOffset_append`). So a token is where `Location.atOffset` says
(`location_of_mem_tokenize`). A node keeps the place of a token, an error is at a token, at a node
or at the end, and what such an error shows is the line around its place
(`Session.calls_locate`).
-/

namespace SqlSyntax

open SqlSyntax.Parser

/-! ## Marks -/

namespace Mark

/-- A mark counts the line ends that it passes. -/
theorem line_past (m : Mark) (cs : Source) : (m.past cs).line = m.line + cs.count '\n' := by
  induction cs generalizing m with
  | nil => rfl
  | cons c cs ih =>
    show ((m.next c).past cs).line = _
    rw [ih, next, List.count_cons]
    by_cases hc : c = '\n'
    · rw [if_pos hc, if_pos (beq_iff_eq.2 hc), Nat.add_right_comm]
      rfl
    · rw [if_neg hc, if_neg (mt beq_iff_eq.1 hc), Nat.add_zero]

/-- From the start of a text on, the line of a mark begins behind the last line end. -/
theorem lineStart_past (cs : Source) :
    (({} : Mark).past cs).lineStart = Source.byteSize (cs.rdropWhile (· != '\n')) := by
  induction cs using List.reverseRecOn with
  | nil => rfl
  | append_singleton cs c ih =>
    have hoffset : (({} : Mark).past cs).offset = Source.byteSize cs :=
      (offset_past {} cs).trans (Nat.zero_add _)
    rw [past_append]
    show ((({} : Mark).past cs).next c).lineStart = _
    rw [next]
    by_cases hc : c = '\n'
    · subst hc
      rw [if_pos rfl, List.rdropWhile_concat_neg _ _ _ (by simp), hoffset]
      exact (Source.byteSize_append cs ['\n']).symm
    · rw [if_neg hc, List.rdropWhile_concat_pos _ _ _ (by simpa using hc)]
      exact ih

/-- Where a character is left of a source below `2 ^ 32` bytes, the lines can be counted in 32
bits. -/
theorem line_past_lt {before after : Source} (hsize : Source.byteSize (before ++ after) < 2 ^ 32)
    (hafter : after ≠ []) : (({} : Mark).past before).line < 2 ^ 32 := by
  have hcount : before.count '\n' ≤ before.length := List.count_le_length
  have hlength := Source.length_le_byteSize before
  have hpos : 0 < Source.byteSize after :=
    Nat.pos_of_ne_zero fun hzero => hafter (Source.eq_nil_of_byteSize hzero)
  rw [Source.byteSize_append] at hsize
  rw [line_past]
  show 1 + _ < _
  omega

end Mark

/-- What begins before the end of some characters are these. -/
theorem Source.beginningBefore_append (before after : Source) :
    beginningBefore before.byteSize (before ++ after) = before := by
  induction before with
  | nil => cases after <;> rfl
  | cons c before ih =>
    obtain ⟨n, hn⟩ := Nat.exists_eq_add_one.2 (Nat.add_pos_left c.utf8Size_pos (byteSize before))
    rw [byteSize_cons, hn, List.cons_append, beginningBefore, ← hn, Nat.add_sub_cancel_left, ih]

/-- The offset lies between two characters of the source, or at one of its ends. -/
def Source.IsBoundary (source : Source) (offset : Nat) : Prop :=
  ∃ before after, source = before ++ after ∧ offset = byteSize before

namespace Location

theorem atOffset_append (before after : Source) :
    atOffset (before ++ after) before.byteSize =
      (({} : Mark).past before).locate before.byteSize := by
  have hmin : min before.byteSize (before ++ after).byteSize = before.byteSize :=
    Nat.min_eq_left (Source.byteSize_append before after ▸ Nat.le_add_right _ _)
  unfold atOffset Mark.locate
  dsimp only
  rw [hmin, Source.beginningBefore_append, Mark.line_past, Mark.lineStart_past, List.rdropWhile,
    Nat.add_comm (before.count _)]

theorem offset_atOffset {source : Source} {offset : Nat} (h : source.IsBoundary offset) :
    (atOffset source offset).offset = offset := by
  obtain ⟨before, after, rfl, rfl⟩ := h
  rw [atOffset_append]
  rfl

end Location

theorem Source.isBoundary_byteSize (source : Source) : source.IsBoundary source.byteSize :=
  ⟨source, [], (List.append_nil source).symm, rfl⟩

/-- The place of an offset of the source between two characters, where a span starts too. -/
structure Source.Marks (source : Source) (l : Location) (start : Nat) : Prop where
  boundary : source.IsBoundary start
  location : l = .atOffset source start

/-- A token is where the source says that its first character is. -/
theorem location_of_mem_tokenize {source : Source} {t : Token} (h : t ∈ tokenize source) :
    source.Marks t.location t.span.start := by
  obtain ⟨before, c, rest, rfl, rfl⟩ := exists_of_mem_tokenize h
  exact ⟨⟨before, c :: rest, rfl, rfl⟩, (Location.atOffset_append before (c :: rest)).symm⟩

/-- In a source below `2 ^ 32` bytes no count of lines is cut off. -/
theorem line_of_mem_tokenize {source : Source} {t : Token} (hsize : source.byteSize < 2 ^ 32)
    (h : t ∈ tokenize source) :
    t.location.line = 1 + (source.beginningBefore t.span.start).count '\n' := by
  obtain ⟨before, c, rest, rfl, rfl⟩ := exists_of_mem_tokenize h
  have hlt := Mark.line_past_lt hsize (List.cons_ne_nil c rest)
  have hline := Mark.line_past {} before
  show min (({} : Mark).past before).line 0xFFFFFFFF =
    1 + (Source.beginningBefore before.byteSize (before ++ c :: rest)).count '\n'
  rw [Source.beginningBefore_append]
  exact (Nat.min_eq_left (Nat.le_pred_of_lt hlt)).trans hline

/-! ## Lines -/

/-- The line is the one around an offset: it has no line end in it, there is one before it and one
behind it unless the source begins or ends there, and the offset is in it or at one of its ends. -/
def Source.IsLineAt (source : Source) (offset : Nat) (line : Source) : Prop :=
  ∃ before after, source = before ++ line ++ after ∧ '\n' ∉ line ∧
    (∀ c ∈ before.getLast?, c = '\n') ∧ (∀ c ∈ after.head?, c = '\n') ∧
    byteSize before ≤ offset ∧ offset ≤ byteSize before + byteSize line

namespace Source

variable {source line line' before before' after after' : Source} {offset : Nat}

/-- A line that reaches an offset does not begin before another one that does. -/
theorem eq_nil_of_line {x : Source} (h : line ++ after = x ++ (line' ++ after'))
    (hline : '\n' ∉ line) (hx : ∀ c ∈ x.getLast?, c = '\n')
    (hsize : byteSize x ≤ byteSize line) : x = [] := by
  by_contra hne
  have hmem : '\n' ∈ x := by
    rw [← hx _ (List.getLast?_eq_some_getLast hne)]
    exact List.getLast_mem hne
  rcases List.append_eq_append_iff.1 h with ⟨y, rfl, -⟩ | ⟨y, rfl, -⟩
  · rw [byteSize_append] at hsize
    have hy : y = [] := eq_nil_of_byteSize (by omega)
    rw [hy, List.append_nil] at hmem
    exact hline hmem
  · exact hline (List.mem_append_left y hmem)

/-- A line does not end where another one goes on. -/
theorem eq_of_line (h : line ++ after = line' ++ after') (hline : '\n' ∉ line)
    (hline' : '\n' ∉ line') (hafter : ∀ c ∈ after.head?, c = '\n')
    (hafter' : ∀ c ∈ after'.head?, c = '\n') : line = line' := by
  rcases List.append_eq_append_iff.1 h with ⟨y, rfl, rfl⟩ | ⟨y, rfl, rfl⟩
  · cases y with
    | nil => exact (List.append_nil line).symm
    | cons c y =>
      exact absurd (hafter c rfl ▸ List.mem_append_right line List.mem_cons_self) hline'
  · cases y with
    | nil => exact List.append_nil line'
    | cons c y =>
      exact absurd (hafter' c rfl ▸ List.mem_append_right line' List.mem_cons_self) hline

/-- There is one line around an offset. -/
theorem IsLineAt.unique (h : source.IsLineAt offset line) (h' : source.IsLineAt offset line') :
    line = line' := by
  obtain ⟨before, after, rfl, hline, hbefore, hafter, hstart, hstop⟩ := h
  obtain ⟨before', after', hsource, hline', hbefore', hafter', hstart', hstop'⟩ := h'
  rw [List.append_assoc, List.append_assoc] at hsource
  rcases List.append_eq_append_iff.1 hsource with ⟨x, rfl, hrest⟩ | ⟨x, rfl, hrest⟩
  · rw [byteSize_append] at hstart'
    obtain rfl : x = [] := eq_nil_of_line hrest hline
      (fun c hc => hbefore' c (List.mem_getLast?_append_of_mem_getLast? hc)) (by omega)
    rw [List.nil_append] at hrest
    exact eq_of_line hrest hline hline' hafter hafter'
  · rw [byteSize_append] at hstart
    obtain rfl : x = [] := eq_nil_of_line hrest hline'
      (fun c hc => hbefore c (List.mem_getLast?_append_of_mem_getLast? hc)) (by omega)
    rw [List.nil_append] at hrest
    exact (eq_of_line hrest hline' hline hafter' hafter).symm

end Source

theorem Source.isLineAt_of_lineAt? {source line : Source} {offset : Nat}
    (hoffset : source.IsBoundary offset) (h : source.lineAt? offset = some line) :
    source.IsLineAt offset line := by
  obtain ⟨before, after, rfl, rfl⟩ := hoffset
  have hmin : min (byteSize before) (byteSize (before ++ after)) = byteSize before := by
    rw [byteSize_append]
    omega
  have hline : line = before.rtakeWhile (· != '\n') ++ after.takeWhile (· != '\n') := by
    simp only [lineAt?, hmin, takeBytes_append, dropBytes_append, Option.bind_eq_bind,
      Option.bind_some, Option.pure_def, Option.some.injEq] at h
    exact h.symm
  subst hline
  have hbefore := List.rdropWhile_append_rtakeWhile (p := (· != '\n')) (l := before)
  have hafter := List.takeWhile_append_dropWhile (p := (· != '\n')) (l := after)
  have hsize := congrArg byteSize hbefore
  rw [byteSize_append] at hsize
  refine ⟨before.rdropWhile (· != '\n'), after.dropWhile (· != '\n'), ?_, ?_, ?_, ?_, ?_, ?_⟩
  · rw [← List.append_assoc, hbefore, List.append_assoc, hafter]
  · intro hmem
    rcases List.mem_append.1 hmem with hmem | hmem
    · exact absurd (List.mem_rtakeWhile_imp hmem) (by decide)
    · exact absurd (List.mem_takeWhile_imp hmem) (by decide)
  · intro c hc
    obtain ⟨hne, rfl⟩ := List.mem_getLast?_eq_getLast hc
    simpa using List.rdropWhile_last_not (· != '\n') before hne
  · intro c hc
    have hhead := List.head?_dropWhile_not (· != '\n') after
    rw [hc] at hhead
    simpa using hhead
  · omega
  · rw [byteSize_append]
    omega

/-! ## Errors -/

/-- An error at a place between two characters of the source, where its span starts too. It shows
the line around the place without the blanks at the end of the line, if that leaves anything. -/
structure ParseError.Located (source : Source) (e : ParseError) : Prop where
  boundary : source.IsBoundary e.location.offset
  location : e.location = .atOffset source e.location.offset
  start : e.span.start = e.location.offset
  context : ∃ line, source.IsLineAt e.location.offset line ∧
    e.context = if line.rdropWhile Unicode.isWhiteSpace = [] then none
      else some (String.ofList (line.rdropWhile Unicode.isWhiteSpace))

theorem ParseError.shownLine_eq (line : Source) :
    shownLine line = if line.rdropWhile Unicode.isWhiteSpace = [] then none
      else some (String.ofList (line.rdropWhile Unicode.isWhiteSpace)) := by
  unfold shownLine
  split
  · next hnil => exact (if_pos hnil).symm
  · next hne => exact (if_neg hne).symm

variable {source : Source}

theorem Failure.located_of_withSource {f : Failure} {e : ParseError}
    (h : f.withSource source = .error e) (hkind : e.kind ≠ .outOfMemory)
    (hf : ∀ e₀, f = .error e₀ → e₀.context = none ∧ source.Marks e₀.location e₀.span.start) :
    e.Located source := by
  obtain ⟨e₀, rfl, hcause, -⟩ := exists_of_withSource h
  obtain ⟨hcontext, hboundary, hlocation⟩ := hf e₀ rfl
  have hoffset : e₀.location.offset = e₀.span.start := by
    rw [hlocation, Location.offset_atOffset hboundary]
  have hkind₀ : ¬(e₀.context.isSome ∨ e₀.kind = .outOfMemory) := by
    rw [ParseError.kind, hcause] at hkind
    rw [hcontext]
    exact not_or.2 ⟨Bool.false_ne_true, hkind⟩
  have hshown : e₀.withSource? source = some e := by
    unfold withSource at h
    dsimp only at h
    split at h
    · next hsome =>
      injection h with h
      rw [hsome, h]
    · cases h
  rw [ParseError.withSource?, if_neg (by simpa using hkind₀)] at hshown
  obtain ⟨line, hline, rfl⟩ := Option.map_eq_some_iff.1 hshown
  rw [← hoffset] at hboundary hlocation
  exact ⟨hboundary, hlocation, hoffset.symm, line, Source.isLineAt_of_lineAt? hboundary hline,
    ParseError.shownLine_eq line⟩

namespace Script

theorem recover_placed {P : Location → Nat → Prop} {s : Progress} {ts : List Tree}
    (scope : Scope) (hs : s.Sound scope.source ts) : (∀ t ∈ s.rest, P t.location t.span.start) →
      (∀ root ∈ (recover scope s).1, root.Placed P) ∧
        ∀ f ∈ (recover scope s).2.1, ∃ r, f.Placed scope.source P r := by
  refine attempts_induction (s := s) scope ?done ?found ?failed hs
  case done =>
    intro s p ts hs _ hnext _
    rw [recover_eq scope hs, hnext]
    exact ⟨List.forall_mem_nil _, List.forall_mem_nil _⟩
  case found =>
    intro s p ts root hs _ hnext ih hrest
    have hout := placed_next? scope P hrest
    rw [hnext] at hout
    obtain ⟨hroots, hfailures⟩ := ih hout.2.1
    rw [recover_eq scope hs, hnext]
    exact ⟨List.forall_mem_cons.2 ⟨hout.2.2 root List.mem_cons_self, hroots⟩, hfailures⟩
  case failed =>
    intro s p ts left f hs _ hnext ih hrest
    have hout := placed_next? scope P hrest
    rw [hnext] at hout
    obtain ⟨hf, _, hplaced⟩ := hout
    obtain ⟨hroots, hfailures⟩ :=
      ih fun t ht => hplaced.1 t ((suffix_synchronized p).subset ht)
    rw [recover_eq scope hs, hnext]
    exact ⟨hroots, List.forall_mem_cons.2 ⟨⟨_, hf⟩, hfailures⟩⟩

end Script

namespace Session

variable {mode : Mode}

theorem located_of_placed {f : Failure} {r : List Token} {e : ParseError}
    (hf : f.Placed source source.Marks r) (h : f.withSource source = .error e)
    (hkind : e.kind ≠ .outOfMemory) : e.Located source := by
  refine Failure.located_of_withSource h hkind fun e₀ he₀ => ?_
  obtain ⟨-, hcontext, hmarks | ⟨-, hlocation, hstart⟩⟩ := hf e₀ he₀
  · exact ⟨hcontext, hmarks⟩
  · have hoffset : e₀.location.offset = source.byteSize := by
      rw [hlocation, Location.offset_atOffset_byteSize]
    rw [hstart, hoffset]
    exact ⟨hcontext, source.isBoundary_byteSize, hlocation⟩

theorem located_of_checked {t : Tree} {e : ParseError} (ht : t.Placed source.Marks)
    (h : checked source mode t = .error (.error e)) : e.Located source := by
  have hkind := (exists_of_checked h).1
  unfold checked validate at h
  split at h
  · cases h
  · next v hv =>
    obtain ⟨u, hu, breach, rfl⟩ := atNode_of_mem_validateAll (List.mem_of_head? hv)
    injection h with h
    refine Failure.located_of_withSource h (by rw [hkind]; decide) ?_
    rintro _ ⟨⟩
    exact ⟨rfl, ht u hu⟩

theorem parse_placed (s : Session) (source : Source) :
    (∀ t, (s.parse source).1 = .ok t → t.Placed source.Marks) ∧
      ∀ e, (s.parse source).1 = .error (.error e) → e.kind ≠ .outOfMemory →
        e.Located source := by
  have hout := Law.single_keeps (Law.placed_allows source s.config source.Marks)
    (Law.placed_serves source s.config source.Marks) (s.scope .one source) []
    (s.start (tokenize source)) rfl rfl trivial
    ⟨fun _ => location_of_mem_tokenize, List.forall_mem_nil _⟩
  rw [parse_eq]
  rcases hrun : Script.single (s.scope .one source) (s.start (tokenize source)) with
    ⟨root, r⟩ | ⟨f, r⟩ <;> rw [hrun] at hout
  · have hroot : root.Placed source.Marks := hout.2.2 root List.mem_cons_self
    refine ⟨fun t ht => ?_, fun e he _ => located_of_checked hroot he⟩
    rw [checked_eq ht]
    exact hroot
  · refine ⟨nofun, fun e he hkind => ?_⟩
    exact located_of_placed hout.1 (Except.error.inj he) hkind

theorem parseAll_placed (s : Session) (source : Source) (hfits : source.Fits) :
    ∃ r, (s.parseAll source).1 = .ok r ∧ (∀ t ∈ r.statements, t.Placed source.Marks) ∧
      ∀ e ∈ r.errors, e.kind ≠ .outOfMemory → e.Located source := by
  obtain ⟨hroots, hfailures⟩ := Script.recover_placed (P := source.Marks) (s.scope .all source)
    (s.start_sound source) fun _ => location_of_mem_tokenize
  obtain ⟨r, tried, broken, hr, htells⟩ := s.exists_tells source hfits
  refine ⟨r, hr, fun t ht => ?_, fun e he hkind => ?_⟩
  · rw [htells.statements] at ht
    exact hroots t ((filterMap_checked_sublist source s.config.mode _).subset ht)
  · rw [htells.errors, List.mem_mergeSort] at he
    rcases List.mem_append.1 he with he | he
    · have hmem : Failure.error e ∈ tried.map .error := List.mem_map_of_mem he
      rw [← htells.attempts] at hmem
      obtain ⟨f, hf, hsource⟩ := List.mem_map.1 hmem
      obtain ⟨left, hplaced⟩ := hfailures f hf
      exact located_of_placed hplaced hsource hkind
    · obtain ⟨t, ht, hcheck⟩ := exists_of_mem_violations htells.rules he
      exact located_of_checked (hroots t ht) hcheck

/-- Statements and errors of a script are among those that would be found if it were read on. -/
theorem parseScript_placed (s : Session) (source : Source) (hfits : source.Fits) :
    (∀ ts, (s.parseScript source).1 = .ok ts → ∀ t ∈ ts, t.Placed source.Marks) ∧
      ∀ f, (s.parseScript source).1 = .error f → ∃ e, f = .error e ∧
        (e.kind ≠ .outOfMemory → e.Located source) := by
  obtain ⟨hroots, hfailures⟩ := Script.recover_placed (P := source.Marks) (s.scope .script source)
    (s.start_sound source) fun _ => location_of_mem_tokenize
  have hrecover := Script.recover_all (s.scope .script source) (s.start_sound source)
  have herror := (s.parseScript_isError source hfits).1
  rw [parseScript_eq] at herror ⊢
  rcases hall : Script.all (s.scope .script source) (s.start (tokenize source)) with
    ⟨roots, q⟩ | ⟨f, q⟩ <;> rw [hall] at hrecover herror <;> dsimp only at hrecover herror ⊢
  · rw [hrecover] at hroots
    refine ⟨fun ts hts => ?_, fun f hf => ?_⟩
    · obtain rfl := mapM_checked_eq hts
      exact hroots
    · obtain ⟨e, rfl, -⟩ := herror f hf
      obtain ⟨t, ht, hcheck⟩ := exists_of_mapM_checked hf
      exact ⟨e, rfl, fun _ => located_of_checked (hroots t ht) hcheck⟩
  · obtain ⟨fs, hfound⟩ := hrecover
    rw [hfound] at hfailures
    obtain ⟨left, hplaced⟩ := hfailures f List.mem_cons_self
    refine ⟨nofun, fun f' hf' => ?_⟩
    obtain ⟨e, rfl, -⟩ := herror f' hf'
    exact ⟨e, rfl, located_of_placed hplaced (Except.error.inj hf')⟩

/-- Positions are right. In a source whose offsets fit in 32 bits, line and column of a token are
those of its first byte. Each node of a tree that is answered has the location of the offset where
its span begins. Each error, unless it is one of storage, is at an offset between two characters
of the source and has the location of that offset, its span begins there, and it shows the line
around the offset without the blanks at the end of the line. -/
theorem calls_locate (s : Session) (source : Source) (h : source.byteSize < 2 ^ 32) :
    (∀ t ∈ tokenize source, t.location = .atOffset source t.span.start) ∧
    (∀ t, (s.parse source).1 = .ok t →
      ∀ u ∈ t.preorder, u.head.location = .atOffset source u.head.span.start) ∧
    (∀ ts, (s.parseScript source).1 = .ok ts → ∀ t ∈ ts,
      ∀ u ∈ t.preorder, u.head.location = .atOffset source u.head.span.start) ∧
    (∀ f, (s.parse source).1 = .error f → ∃ e, f = .error e ∧
      (e.kind ≠ .outOfMemory → e.Located source)) ∧
    (∀ f, (s.parseScript source).1 = .error f → ∃ e, f = .error e ∧
      (e.kind ≠ .outOfMemory → e.Located source)) ∧
    ∃ r, (s.parseAll source).1 = .ok r ∧
      (∀ t ∈ r.statements, ∀ u ∈ t.preorder,
        u.head.location = .atOffset source u.head.span.start) ∧
      ∀ e ∈ r.errors, e.kind ≠ .outOfMemory → e.Located source := by
  have hfits : source.Fits := Nat.lt_trans h (Nat.pow_lt_pow_right (by decide) (by decide))
  obtain ⟨htree, herror⟩ := s.parse_placed source
  obtain ⟨htrees, herrors⟩ := s.parseScript_placed source hfits
  obtain ⟨r, hr, hstatements, hreport⟩ := s.parseAll_placed source hfits
  refine ⟨fun t ht => (location_of_mem_tokenize ht).location,
    fun t ht u hu => (htree t ht u hu).location,
    fun ts hts t ht u hu => (htrees ts hts t ht u hu).location, fun f hf => ?_, herrors, r, hr,
    fun t ht u hu => (hstatements t ht u hu).location, hreport⟩
  obtain ⟨e, rfl, -⟩ := (s.parse_isError source hfits).1 f hf
  exact ⟨e, rfl, herror e hf⟩

/-- An error in the second line, behind a comment and characters of several bytes. -/
theorem calls_locate_lines :
    Source.byteSize "SELECT 'ü' -- é\n , FROM t".toList < 2 ^ 32 ∧
    ∃ e, (({} : Session).parse "SELECT 'ü' -- é\n , FROM t".toList).1 = .error (.error e) ∧
      e.location.line = 2 ∧ e.Located "SELECT 'ü' -- é\n , FROM t".toList := by
  have hsize : Source.byteSize "SELECT 'ü' -- é\n , FROM t".toList < 2 ^ 32 := by decide +kernel
  have hfound : (errors (failure?
      (({} : Session).parse "SELECT 'ü' -- é\n , FROM t".toList).1).toList).toOption.map
        (·.map fun e => (e.kind, e.location.line)) = some [(.syntaxError, 2)] := by decide +kernel
  obtain ⟨-, -, -, herror, -⟩ := calls_locate {} _ hsize
  rcases hparse : (({} : Session).parse "SELECT 'ü' -- é\n , FROM t".toList).1 with f | t
  · obtain ⟨e, rfl, hlocated⟩ := herror f hparse
    rw [hparse] at hfound
    obtain ⟨hkind, hline⟩ : e.kind = .syntaxError ∧ e.location.line = 2 := by
      simpa [failure?, errors, Except.map, Except.toOption] using hfound
    exact ⟨hsize, e, rfl, hline, hlocated (by rw [hkind]; decide)⟩
  · rw [hparse] at hfound
    cases hfound

end Session

end SqlSyntax

import SqlSyntax.Proofs.Session
import SqlSyntax.Proofs.Violations

/-!
# Calls that cannot break down

A call could break down in three ways: by an edit of the stored nodes that cannot be made, by a
quoted token whose body is no piece of the source, and by an error whose place has no line. None
of them happens for a source whose offsets fit in 32 bits: such a call fails by errors alone.
-/

namespace SqlSyntax

open SqlSyntax.Parser

variable {α β : Type}

/-! ## Accepted edits -/

theorem exists_of_bind {x : Edit α} {k : α → Edit β} {f f' : Forest} {b : β}
    (h : (x >>= k) f = .ok b f') : ∃ a f₁, x f = .ok a f₁ ∧ k a f₁ = .ok b f' := by
  change EStateM.bind x k f = _ at h
  unfold EStateM.bind at h
  rcases hx : x f with ⟨a, f₁⟩ | ⟨e, f₁⟩
  · rw [hx] at h
    exact ⟨a, f₁, rfl, h⟩
  · rw [hx] at h
    simp at h

namespace Forest

variable {f f' : Forest} {parent child h : SlotHandle} {e : Entry}

/-- A node whose entry was read is live. -/
theorem get?_of_entry (hrun : entry h f = .ok e f') : f.get? h = some e ∧ f' = f := by
  rw [entry_eq] at hrun
  rcases hget : f.get? h with _ | e'
  · simp [hget] at hrun
  · rw [hget] at hrun
    injection hrun with he hf
    exact ⟨by rw [he], hf.symm⟩

theorem get?_of_discard {u : Unit} (hrun : discard (entry h) f = .ok u f') :
    f.isLive h ∧ f' = f := by
  change EStateM.map _ (entry h) f = _ at hrun
  unfold EStateM.map at hrun
  rcases hentry : entry h f with ⟨e, f₁⟩ | ⟨refused, f₁⟩
  · rw [hentry] at hrun
    obtain ⟨he, rfl⟩ := get?_of_entry hentry
    injection hrun with _ hf
    exact ⟨by rw [isLive, he]; rfl, hf.symm⟩
  · rw [hentry] at hrun
    simp at hrun

/-- Changing the links of one node keeps every node. -/
theorem isLive_of_relink {change : Links → Links} {u : Unit} (hrun : relink h change f = .ok u f')
    (k : SlotHandle) : f'.isLive k = f.isLive k := by
  obtain ⟨_, f₁, hentry, hmodify⟩ := exists_of_bind hrun
  obtain ⟨-, rfl⟩ := get?_of_discard hentry
  injection hmodify with _ hf
  rw [← hf, isLive, isLive, get?, get?, Array.getElem?_modify]
  split
  · split
    · rw [Option.isSome_map]
    · rfl
  · rfl

/-- A child that was appended was live and detached, and its parent is another node that is live. -/
theorem of_addChild (hrun : addChild parent child f = .ok () f') :
    parent ≠ child ∧ (∃ e, f.get? child = some e ∧ e.links.parent = none ∧
      e.links.nextSibling = none) ∧ f.isLive parent := by
  unfold addChild at hrun
  by_cases hne : parent = child
  · rw [if_pos hne] at hrun
    cases hrun
  rw [if_neg hne] at hrun
  obtain ⟨e, _, hentry, hchecked⟩ := exists_of_bind hrun
  obtain ⟨he, rfl⟩ := get?_of_entry hentry
  dsimp only at hchecked
  by_cases hdetached : e.links.parent.isSome || e.links.nextSibling.isSome
  · rw [if_pos hdetached] at hchecked
    cases hchecked
  rw [if_neg hdetached] at hchecked
  obtain ⟨_, f₁, hrelink, hlinked⟩ := exists_of_bind hchecked
  obtain ⟨_, f₂, hparent, -⟩ := exists_of_bind hlinked
  refine ⟨hne, ⟨e, he, ?_⟩, ?_⟩
  · simpa using hdetached
  · rw [← isLive_of_relink hrelink, isLive, (get?_of_entry hparent).1]
    rfl

theorem mem_of_previousIn : ∀ {first : Option SlotHandle} {hs : List SlotHandle},
      (previousIn child first hs).isSome → child ∈ hs
  | _, h :: hs, hsome => by
    unfold previousIn at hsome
    split at hsome
    · next heq => exact heq ▸ List.mem_cons_self
    · exact List.mem_cons_of_mem h (mem_of_previousIn hsome)

/-- A child that was taken away was among the children of its parent. -/
theorem of_removeChild (hrun : removeChild parent child f = .ok () f') :
    child ∈ f.children parent := by
  unfold removeChild at hrun
  obtain ⟨_, f₁, hentry, hrest⟩ := exists_of_bind hrun
  obtain ⟨-, rfl⟩ := get?_of_discard hentry
  obtain ⟨_, _, hget, hfound⟩ := exists_of_bind hrest
  injection hget with ha hf
  subst ha hf
  rcases hprevious : previousIn child none (f₁.children parent) with _ | previous
  · rw [hprevious] at hfound
    cases hfound
  · exact mem_of_previousIn (by rw [hprevious]; rfl)

end Forest

/-! ## Failures that are errors -/

/-- An error of the parsed text, at a place that has a line. -/
def Failure.IsError (source : Source) (f : Failure) : Prop :=
  ∃ e, f = .error e ∧ source.HasLine e.location.offset

/-- An error at a place that has a line can show it. -/
theorem Failure.withSource_isError {source : Source} {e : ParseError}
    (hline : source.HasLine e.location.offset) :
    ((Failure.error e).withSource source).IsError source := by
  obtain ⟨line, h⟩ := Option.isSome_iff_exists.1 hline
  unfold Failure.withSource ParseError.withSource?
  by_cases hcontext : e.context.isSome || e.kind = .outOfMemory
  · simp only [hcontext, if_true]
    exact ⟨e, rfl, hline⟩
  · simp only [hcontext, h]
    exact ⟨_, rfl, hline⟩

theorem Failure.Fair.withSource {source : Source} {f : Failure} (hf : f.Fair source)
    (hfits : source.Fits) : (f.withSource source).IsError source := by
  rcases f with e | t | e | e
  · exact Failure.withSource_isError hf
  · exact absurd hfits hf
  · exact hf.elim
  · exact hf.elim

namespace Session

variable {source : Source}

theorem isError_of_checked {mode : Mode} {t : Tree} {f : Failure} (hfits : source.Fits)
    (ht : t.Everywhere (Tree.HasLine source)) (h : checked source mode t = .error f) :
    f.IsError source := by
  unfold checked validate at h
  split at h
  · simp at h
  · next v hv =>
    obtain ⟨u, hu, breach, rfl⟩ := atNode_of_mem_validateAll (List.mem_of_head? hv)
    have hfair : (Failure.error (.ofViolation (Validation.violation breach u))).Fair source :=
      ht u hu
    rw [← Except.error.inj h]
    exact hfair.withSource hfits

/-- A call fails as its run does, or as its check of a sound answer. -/
theorem finish_isError {s : Session} {r : Run α} {post : α → List Tree}
    {check : α → Except Failure β} (hfits : source.Fits) (hr : r.Sound source post [])
    (hcheck : ∀ a f, (∀ t ∈ post a, t.Everywhere (Tree.HasLine source)) → check a = .error f →
      f.IsError source) :
    (∀ f, (s.finish source r check).1 = .error f → f.IsError source) ∧
      (s.finish source r check).2.last.refused = none := by
  obtain ⟨answer, p⟩ := r
  rcases answer with f | a
  · obtain ⟨hf, left, hp⟩ := hr
    refine ⟨fun f' h => ?_, hp.accepted⟩
    rw [← Except.error.inj h]
    exact hf.withSource hfits
  · have hp : p.Sound source (post a ++ []) := hr
    refine ⟨fun f h => hcheck a f (fun t ht => ?_) h, hp.accepted⟩
    exact hp.hasLine t (List.mem_append_left _ ht)

theorem parse_isError (s : Session) (source : Source) (hfits : source.Fits) :
    (∀ f, (s.parse source).1 = .error f → f.IsError source) ∧
      (s.parse source).2.last.refused = none :=
  finish_isError hfits (Script.single_sound (s.scope .one source) (s.start_sound source))
    fun _ _ ht h => isError_of_checked hfits (ht _ List.mem_cons_self) h

theorem parseScript_isError (s : Session) (source : Source) (hfits : source.Fits) :
    (∀ f, (s.parseScript source).1 = .error f → f.IsError source) ∧
      (s.parseScript source).2.last.refused = none :=
  finish_isError hfits (Script.all_sound (s.scope .script source) (s.start_sound source))
    fun _ _ hts h =>
      let ⟨t, ht, hcheck⟩ := exists_of_mapM_checked h
      isError_of_checked hfits (hts t ht) hcheck

theorem exists_errors_eq : ∀ {fs : List Failure}, (∀ f ∈ fs, f.IsError source) →
    ∃ es, errors fs = .ok es ∧ ∀ e ∈ es, source.HasLine e.location.offset
  | [], _ => ⟨[], rfl, List.forall_mem_nil _⟩
  | f :: fs, h => by
    obtain ⟨hf, hfs⟩ := List.forall_mem_cons.1 h
    obtain ⟨e, rfl, he⟩ := hf
    obtain ⟨es, hes, hlines⟩ := exists_errors_eq hfs
    refine ⟨e :: es, ?_, List.forall_mem_cons.2 ⟨he, hlines⟩⟩
    rw [errors, hes]
    rfl

theorem parseAll_isError (s : Session) (source : Source) (hfits : source.Fits) :
    (∃ r, (s.parseAll source).1 = .ok r ∧ ∀ e ∈ r.errors, source.HasLine e.location.offset) ∧
      (s.parseAll source).2.last.refused = none := by
  obtain ⟨hfair, left, hsound⟩ := Script.recoverFor_sound (s.scope .all source)
    ((s.start (tokenize source)).rest.length + 1) (s.start_sound source)
  unfold parseAll Script.recover
  generalize Script.recoverFor (s.scope .all source) _ (s.start (tokenize source)) =
    found
    at hfair hsound ⊢
  obtain ⟨roots, failures, last⟩ := found
  have hlines := hsound.hasLine
  refine ⟨?_, hsound.accepted⟩
  dsimp only at hfair hlines ⊢
  have hfound : ∀ f ∈ failures.map (·.withSource source) ++
      (roots.map (checked source s.config.mode)).filterMap failure?, f.IsError source := by
    intro f hf
    rcases List.mem_append.1 hf with hf | hf
    · obtain ⟨f', hf', rfl⟩ := List.mem_map.1 hf
      exact (hfair f' hf').withSource hfits
    · obtain ⟨x, hx, hxf⟩ := List.mem_filterMap.1 hf
      obtain ⟨t, ht, rfl⟩ := List.mem_map.1 hx
      rcases hcheck : checked source s.config.mode t with f' | u
      · rw [hcheck] at hxf
        rw [← Option.some.inj hxf]
        exact isError_of_checked hfits (hlines t (List.mem_append_left _ ht)) hcheck
      · rw [hcheck] at hxf
        cases hxf
  obtain ⟨es, hes, hlines⟩ := exists_errors_eq hfound
  rw [hes]
  exact ⟨_, rfl, fun e he => hlines e (List.mem_mergeSort.1 he)⟩

/-- For a source whose offsets fit in 32 bits no call breaks down, whatever was parsed before. Every
token and every quoted body is a piece of the source, every edit of the stored nodes can be made,
and what the calls fail with are errors at places that have a line. -/
theorem calls_never_break_down (s : Session) (source : Source) (h : source.byteSize < 2 ^ 32) :
    (∀ t ∈ tokenize source, source.at? t.span = some t.text ∧ (Lexeme.isQuoted t.kind →
      ∃ body, source.slice? (t.span.inner 1).start (t.span.inner 1).stop = some body)) ∧
    (∀ f, (s.parse source).1 = .error f → f.IsError source) ∧
    (s.parse source).2.last.refused = none ∧
    (∀ f, (s.parseScript source).1 = .error f → f.IsError source) ∧
    (s.parseScript source).2.last.refused = none ∧
    (∃ r, (s.parseAll source).1 = .ok r ∧ ∀ e ∈ r.errors, source.HasLine e.location.offset) ∧
    (s.parseAll source).2.last.refused = none := by
  have hfits : source.Fits := Nat.lt_trans h (Nat.pow_lt_pow_right (by decide) (by decide))
  obtain ⟨hparse, hparse'⟩ := s.parse_isError source hfits
  obtain ⟨hscript, hscript'⟩ := s.parseScript_isError source hfits
  obtain ⟨hreport, hreport'⟩ := s.parseAll_isError source hfits
  refine ⟨fun t ht => ?_, hparse, hparse', hscript, hscript', hreport, hreport'⟩
  have hread := readFrom_of_mem_tokenize ht
  refine ⟨hread.text, fun hquoted => ?_⟩
  obtain ⟨_, _, body, -, hbody⟩ := hread.body hfits hquoted
  exact ⟨body, hbody⟩

/-- An error between characters of several bytes is found in its line. -/
theorem calls_never_break_down_umlaut :
    Source.byteSize "SELECT 'ü''é', [ö] FROM ;ß".toList < 2 ^ 32 ∧
    (({} : Session).parse "SELECT 'ü''é', [ö] FROM ;ß".toList).1.isOk = false ∧
    (∀ f, (({} : Session).parse "SELECT 'ü''é', [ö] FROM ;ß".toList).1 = .error f →
      f.IsError "SELECT 'ü''é', [ö] FROM ;ß".toList) ∧
    (({} : Session).parse "SELECT 'ü''é', [ö] FROM ;ß".toList).2.last.refused = none := by
  have hsize : Source.byteSize "SELECT 'ü''é', [ö] FROM ;ß".toList < 2 ^ 32 := by decide +kernel
  obtain ⟨-, hparse, haccepted, -⟩ := calls_never_break_down {} _ hsize
  exact ⟨hsize, by decide +kernel, hparse, haccepted⟩

end Session

end SqlSyntax

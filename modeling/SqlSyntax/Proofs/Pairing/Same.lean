import SqlSyntax.Proofs.Pairing.Schema
import SqlSyntax.Proofs.Tokens
import SqlSyntax.Session

/-!
# Two runs over one source

Two runs over the tokens of one source, or one run compared with itself. Tokens, texts and failures
are the same, so what is left to be said is which tokens may be taken and how the trees compare.
-/

namespace SqlSyntax

open SqlSyntax.Parser

/-! ## Words -/

namespace Lexeme

theorem isPlain_word (cs : List Char) : (word cs).1.isPlain := by
  unfold word
  dsimp only
  split <;> rfl

/-- A word that begins with a letter of one of the words that are told by their spelling. -/
theorem lexeme_spelled {c : Char} (hc : c ∈ ['R', 'r', 'N', 'n', 'A', 'a']) (rest : List Char) :
    (lexeme c rest).1 = (word (c :: rest)).1 := by
  simp only [List.mem_cons, List.not_mem_nil, or_false] at hc
  rcases hc with rfl | rfl | rfl | rfl | rfl | rfl <;> rfl

end Lexeme

theorem eq_or_of_toUpper {c d : Char} (h : c.toUpper = d) : c = d ∨ c.val = d.val + 32 := by
  subst h
  unfold Char.toUpper
  split
  · right
    show c.val = c.val + ('A'.val - 'a'.val) + 32
    rw [UInt32.add_assoc, show 'A'.val - 'a'.val + 32 = 0 from rfl, UInt32.add_zero]
  · exact .inl rfl

/-- A token that is written like one of these words is a word. -/
theorem plain_of_spelling {source : Source} {t : Token} {w : String} (ht : t ∈ tokenize source)
    (hw : w ∈ ["ROWID", "NO", "ACTION"]) (h : sameWord t.text w) : t.kind.isPlain := by
  obtain ⟨before, c, rest, -, rfl⟩ := exists_of_mem_tokenize ht
  have hfold : c.toUpper :: (rest.take (lexeme c rest).2).map Char.toUpper =
      w.toList.map Char.toUpper := by
    have h := congrArg String.toList (eq_of_beq h)
    simpa [foldCase, tokenAfter] using h
  have hletter {d e : Char} {es : List Char} (hd : w.toList.map Char.toUpper = d :: es)
      (he : d.val + 32 = e.val) : c = d ∨ c = e := by
    refine (eq_or_of_toUpper (List.cons.inj (hfold.trans hd)).1).imp_right fun hc => ?_
    exact Char.ext (hc.trans he)
  have hc : c ∈ ['R', 'r', 'N', 'n', 'A', 'a'] := by
    simp only [List.mem_cons, List.not_mem_nil, or_false] at hw ⊢
    rcases hw with rfl | rfl | rfl
    · have hcase : c = 'R' ∨ c = 'r' := hletter rfl rfl
      tauto
    · have hcase : c = 'N' ∨ c = 'n' := hletter rfl rfl
      tauto
    · have hcase : c = 'A' ∨ c = 'a' := hletter rfl rfl
      tauto
  show (lexeme c rest).1.isPlain
  rw [Lexeme.lexeme_spelled hc]
  exact Lexeme.isPlain_word _

namespace Pairing

/-! ## One source -/

/-- Two runs over the tokens of one source. -/
def same (source : Source) (config config' : Config) (tree : Tree → Tree → Prop)
    (fails : Failure → Failure → Prop) (fine : List Token → Prop) (sets : Prop) : Pairing where
  source := source
  source' := source
  config := config
  config' := config'
  listed t t' := t = t' ∧ t ∈ tokenize source
  stop := Eq
  txt := Eq
  written := Eq
  tree := tree
  number _ _ := True
  fails := fails
  fine := fine
  sets := sets

variable {W : Pairing} {source : Source} {config config' : Config} {tree : Tree → Tree → Prop}
  {fails : Failure → Failure → Prop} {fine : List Token → Prop} {sets : Prop}
  {ahead : List Token → Prop}

namespace Runs

theorem copy {text text' : String} (htext : W.txt (.copied text) (.copied text')) :
    W.Runs ahead (copy text) (copy text') W.txt fun _ => ahead :=
  (edit _ _).bind fun _ _ _ _ _ _ _ _ hs hfine ha =>
    ⟨htext, ha, ⟨hs.rest, hs.taken, hs.lastEnd, hs.deepest, hs.number⟩, hfine, Nat.le_refl _⟩

/-- The texts inside the quotes of two tokens, of which one is the other's, changed by `f`. -/
theorem quotedText {f : Source → Source} {quote : Char} {t t' : Token}
    (hslice : W.source'.slice? (t'.span.inner 1).start (t'.span.inner 1).stop =
      (W.source.slice? (t.span.inner 1).start (t.span.inner 1).stop).map f)
    (hcontains : ∀ body, (f body).contains quote = body.contains quote)
    (hcopied : ∀ body, W.txt (.copied (String.ofList (undouble quote body)))
      (.copied (String.ofList (undouble quote (f body)))))
    (hkept : W.txt (.slice (t.span.inner 1)) (.slice (t'.span.inner 1)))
    (hfails : W.fails (.noBody t) (.noBody t')) :
    W.Runs ahead (quotedText quote t) (quotedText quote t') W.txt fun _ => ahead := by
  intro scope scope' s s' hscope hs hfine ha
  unfold Parser.quotedText
  rw [read_run, read_run, hscope.source, hscope.source', hslice]
  rcases W.source.slice? (t.span.inner 1).start (t.span.inner 1).stop with _ | body
  · exact ⟨hfails, hs⟩
  · by_cases hquote : body.contains quote
    · simp only [Option.map_some, hcontains, hquote, if_true]
      exact copy (hcopied body) scope scope' s s' hscope hs hfine ha
    · simp only [Option.map_some, hcontains, hquote]
      exact ⟨hkept, ha, hs, hfine, Nat.le_refl _⟩

/-- The texts of two tokens of one kind, which begin alike if they are quoted names. The pieces that
may be kept are alike. -/
theorem tokenText {t t' : Token} (hkind : t.kind = t'.kind)
    (hhead : t.kind = .quotedIdentifier → t.text.toList.head? = t'.text.toList.head?)
    (hnone : W.txt .none .none) (hkept : W.txt (.slice t.span) (.slice t'.span))
    (hinner : W.txt (.slice (t.span.inner 1)) (.slice (t'.span.inner 1)))
    (hdigits : W.txt (.slice ⟨wordAdd (t.span.inner 1).start 1, (t.span.inner 1).stop⟩)
      (.slice ⟨wordAdd (t'.span.inner 1).start 1, (t'.span.inner 1).stop⟩))
    (hquoted : ∀ quote, quote = '\'' ∨
        t.kind = .quotedIdentifier ∧ t.text.toList.head? = some quote →
      W.Runs ahead (Parser.quotedText quote t) (Parser.quotedText quote t') W.txt fun _ => ahead) :
    W.Runs ahead (tokenText t) (tokenText t') W.txt fun _ => ahead := by
  unfold Parser.tokenText
  rw [← hkind]
  split
  · exact hquoted _ (.inl rfl)
  · next hk =>
    have hhead := hhead hk
    rcases htext : t.text.toList with _ | ⟨c, cs⟩ <;>
      rcases htext' : t'.text.toList with _ | ⟨c', cs'⟩ <;> rw [htext, htext'] at hhead
    · exact answer hnone
    · cases hhead
    · cases hhead
    · obtain rfl : c = c' := Option.some.inj hhead
      by_cases hbracket : c = '['
      · subst hbracket
        exact answer hinner
      · have hruns := hquoted c (.inr ⟨hk, by rw [htext]; rfl⟩)
        split
        · next heq => cases heq
        · next heq => exact absurd (List.cons.inj heq).1 hbracket
        · next heq =>
          obtain ⟨rfl, -⟩ := List.cons.inj heq
          exact hruns
  · exact answer hdigits
  · exact answer hkept

end Runs

theorem eq_of_same {ts ts' : List Token}
    (h : List.Forall₂ (same source config config' tree fails fine sets).tok ts ts') : ts = ts' := by
  induction h with
  | nil => rfl
  | cons ht _ ih => rw [ht.1.1, ih]

theorem eq_of_amends {k : Kind} {change change' : Node → Node}
    (h : (same source config config' tree fails fine sets).Amends k change change') :
    change' = change := by
  cases h with
  | extend hstop =>
    obtain rfl := hstop
    rfl
  | text htext =>
    obtain rfl := htext
    rfl
  | typed _ htext =>
    obtain rfl := htext
    rfl
  | name htexts =>
    obtain rfl := List.forall₂_eq_eq_eq ▸ htexts
    rfl
  | column htexts =>
    obtain rfl := List.forall₂_eq_eq_eq ▸ htexts
    rfl
  | _ => rfl

/-- Configurations that agree on what is read. A failure is at the token that was next, if not at
the end of the source or about a token without a body. -/
theorem same_reads (hstrict : config.strictAnsi = config'.strictAnsi)
    (hallow : config.allowExtensions = config'.allowExtensions)
    (hlimit : config.depthLimit = config'.depthLimit)
    (hbudget : config.stackBudget = config'.stackBudget)
    (hbody : ∀ t, fails (.noBody t) (.noBody t))
    (hat : ∀ {t ts e}, t ∈ tokenize source → fine (t :: ts) → e.location = t.location →
      fails (.error e) (.error e))
    (hend : ∀ e, fine [] → fails (.error e) (.error e)) :
    (same source config config' tree fails fine sets).Reads where
  strictAnsi := hstrict
  allowExtensions := hallow
  depthLimit := hlimit
  stackBudget := hbudget
  listed_kind ht := congrArg _ ht.1
  listed_stop {t t'} ht := by
    obtain rfl : t = t' := ht.1
    rfl
  misquoted ht := congrArg _ ht.1.1
  spelling ht _ := congrArg _ ht.1.1
  word ht _ := by rw [ht.1.1]
  plain_word ht hw h := plain_of_spelling ht.1.2 hw h
  dataType h _ _ := by rw [eq_of_same h]
  unsigned ht := by rw [ht.1.1]
  noText := rfl
  written {t t' stop stop'} ht hstop := by
    obtain rfl : t = t' := ht.1.1
    obtain rfl : stop = stop' := hstop
    rfl
  tokenText {t t' _} ht := by
    obtain rfl : t = t' := ht.1.1
    refine Runs.tokenText rfl (fun _ => rfl) rfl rfl rfl rfl fun quote _ => ?_
    exact Runs.quotedText (f := id) Option.map_id'.symm (fun _ => rfl) (fun _ => rfl) rfl (hbody t)
  failsAt {t t'} _ ht := by
    obtain rfl : t = t' := ht.1.1
    obtain ⟨⟨-, hmem⟩, ts, hfine⟩ := ht
    exact hat hmem hfine rfl
  failsUnexpected {t t'} _ ht := by
    obtain rfl : t = t' := ht.1.1
    obtain ⟨⟨-, hmem⟩, ts, hfine⟩ := ht
    exact hat hmem hfine rfl
  failsEnd _ hfine := hend _ hfine

/-- Runs that fail with the same failure. -/
theorem same_reads_eq (hstrict : config.strictAnsi = config'.strictAnsi)
    (hallow : config.allowExtensions = config'.allowExtensions)
    (hlimit : config.depthLimit = config'.depthLimit)
    (hbudget : config.stackBudget = config'.stackBudget) :
    (same source config config' tree Eq fine sets).Reads :=
  same_reads hstrict hallow hlimit hbudget (fun _ => rfl) (fun _ _ _ => rfl) fun _ _ => rfl

/-- Trees need not be compared. -/
theorem same_builds :
    (same source config config' (fun _ _ => True) fails fine sets).Builds where
  next _ := trivial
  leaf _ _ _ _ _ := trivial
  spans _ _ _ _ _ := trivial
  amend _ _ := trivial
  attach _ _ := trivial
  prepend _ _ := trivial
  enclosed {_ _ u _ _ _ _ _} _ _ hu _ _ := by
    refine ⟨trivial, ?_⟩
    obtain ⟨n, cs⟩ := u
    unfold Expression.surrounded
    split
    · exact hu.2
    · rfl
  enclosed_next _ := trivial

theorem same_meets (s s' : Progress) (hrest : s.rest = tokenize source)
    (hrest' : s'.rest = tokenize source) (htaken : s.taken = s'.taken)
    (hlastEnd : s.lastEnd = s'.lastEnd) (hdeepest : s.deepest = s'.deepest) :
    (same source config config' tree fails fine sets).Meets s s' where
  rest := by
    rw [hrest, hrest', List.forall₂_same]
    exact fun t ht => ⟨rfl, ht⟩
  taken := htaken
  lastEnd := hlastEnd
  deepest := hdeepest
  number := trivial

end Pairing

end SqlSyntax

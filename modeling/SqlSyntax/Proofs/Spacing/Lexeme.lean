import SqlSyntax.Proofs.Tokens

/-!
# The end of a token

To find the end of a token its reader looks at the characters behind it. If the text ends there or
goes on with a space, the token ends where it ended before (`lexeme_splice`). Numbers, blobs and
words are runs of characters that a space does not belong to, a closing quote is not doubled by it,
and no mark goes on with it.
-/

namespace SqlSyntax

/-- Nothing follows, or a space. -/
def Apart (tail : List Char) : Prop := ∀ d ∈ tail.head?, d = ' '

theorem Apart.fails {tail : List Char} (h : Apart tail) {p : Char → Bool} (hp : p ' ' = false) :
    ∀ d ∈ tail.head?, p d = false :=
  fun d hd => h d hd ▸ hp

theorem Apart.cases {tail : List Char} (h : Apart tail) : tail = [] ∨ ∃ ds, tail = ' ' :: ds := by
  rcases tail with _ | ⟨d, ds⟩
  · exact .inl rfl
  · exact .inr ⟨ds, by rw [h d rfl]⟩

namespace Lexeme

variable {cs tail : List Char} {n : Nat} {p : Char → Bool}

/-! ## Runs of characters -/

theorem run_cons (c : Char) (cs : List Char) :
    run p (c :: cs) = if p c then run p cs + 1 else 0 := by
  rw [run, List.takeWhile_cons]
  split
  · rfl
  · rfl

theorem run_eq_zero (h : ∀ d ∈ tail.head?, p d = false) : run p tail = 0 := by
  rcases tail with _ | ⟨d, ds⟩
  · rfl
  · rw [run_cons, h d rfl]
    rfl

/-- A run that ends within the first characters, or with them, is the same whatever follows these,
if that does not go on with it. -/
theorem run_splice (hn : n < cs.length) (hrun : run p cs ≤ n)
    (htail : run p cs = n → ∀ d ∈ tail.head?, p d = false) :
    run p (cs.take n ++ tail) = run p cs := by
  induction cs generalizing n with
  | nil => exact absurd hn (Nat.not_lt_zero n)
  | cons c cs ih =>
    rw [run_cons] at hrun ⊢
    rcases n with _ | n
    · have hc : ¬ p c := fun hc => by
        rw [if_pos hc] at hrun
        exact Nat.not_succ_le_zero _ hrun
      rw [run_cons, if_neg hc] at htail
      rw [if_neg hc]
      exact run_eq_zero (htail rfl)
    · rw [List.take_succ_cons, List.cons_append, run_cons]
      by_cases hc : p c
      · rw [run_cons, if_pos hc] at htail
        rw [if_pos hc] at hrun
        rw [if_pos hc, if_pos hc, ih (Nat.lt_of_succ_lt_succ hn) (Nat.le_of_succ_le_succ hrun)
          fun h => htail (congrArg (· + 1) h)]
      · rw [if_neg hc, if_neg hc]

theorem drop_splice {k : Nat} (hn : n < cs.length) (hk : k ≤ n) (tail : List Char) :
    (cs.take n ++ tail).drop k = (cs.drop k).take (n - k) ++ tail := by
  rw [List.drop_append_of_le_length (by rw [List.length_take]; omega), List.drop_take]

/-- The first character is the same, unless all that is kept is nothing. -/
theorem head?_splice (hn : n < cs.length) (h : n ≠ 0) (tail : List Char) :
    (cs.take n ++ tail).head? = cs.head? := by
  obtain ⟨k, rfl⟩ := Nat.exists_eq_succ_of_ne_zero h
  obtain ⟨c, cs, rfl⟩ := List.exists_cons_of_length_pos (Nat.zero_lt_of_lt hn)
  rfl

/-- A character before the space was there before. -/
theorem cons_splice {c : Char} {ds : List Char} (ht : Apart tail) (hn : n < cs.length)
    (h : cs.take n ++ tail = c :: ds) (hc : c ≠ ' ') :
    ∃ k es, n = k + 1 ∧ cs = c :: es ∧ k < es.length ∧ ds = es.take k ++ tail := by
  obtain ⟨e, es, rfl⟩ := List.exists_cons_of_length_pos (Nat.zero_lt_of_lt hn)
  rcases n with _ | k
  · rw [List.take_zero, List.nil_append] at h
    exact absurd (ht c (by rw [h]; rfl)) hc
  · obtain ⟨rfl, rfl⟩ := List.cons.inj h
    exact ⟨k, es, rfl, rfl, Nat.lt_of_succ_lt_succ hn, rfl⟩

/-- What the first character tells is the same, if at the end of the text it is as before a
space. -/
theorem ask_splice {α : Type} (q : Option Char → α) (ht : Apart tail) (hn : n < cs.length)
    (hspace : q (some ' ') = q none) (h : n = 0 → q none = q cs.head?) :
    q (cs.take n ++ tail).head? = q cs.head? := by
  by_cases hzero : n = 0
  · rw [← h hzero, hzero, List.take_zero, List.nil_append]
    rcases ht.cases with rfl | ⟨ds, rfl⟩
    · rfl
    · exact hspace
  · rw [head?_splice hn hzero]

/-! ## Quoted tokens -/

theorem quotedLength?_splice {close : Char} (h : quotedLength? close cs = some n)
    (htail : ∀ d ∈ tail.head?, d ≠ close) :
    quotedLength? close (cs.take n ++ tail) = some n := by
  have hlone {c : Char} (hc : (c == close) = true) :
      quotedLength? close ([c] ++ tail) = some 1 := by
    rcases tail with _ | ⟨d, ds⟩
    · rw [List.append_nil, quotedLength?, if_pos hc]
    · rw [List.singleton_append, quotedLength?, if_pos hc,
        if_neg (by simpa using htail d rfl)]
  fun_induction quotedLength? close cs generalizing n with
  | case1 => cases h
  | case2 c hc =>
    obtain rfl := Option.some.inj h
    exact hlone hc
  | case3 => cases h
  | case4 c d rest hc hd ih =>
    obtain ⟨k, hk, rfl⟩ := Option.map_eq_some_iff.1 h
    rw [List.take_succ_cons, List.take_succ_cons, List.cons_append, List.cons_append,
      quotedLength?, if_pos hc, if_pos hd, ih hk, Option.map_some]
  | case5 c d rest hc hd =>
    obtain rfl := Option.some.inj h
    exact hlone hc
  | case6 c d rest hc ih =>
    obtain ⟨k, hk, rfl⟩ := Option.map_eq_some_iff.1 h
    have htake : ∃ es, (d :: rest).take k ++ tail = d :: es := by
      rcases k with _ | k
      · obtain ⟨body, hbody⟩ := quotedLength?_eq hk
        simp at hbody
      · exact ⟨_, rfl⟩
    obtain ⟨es, hes⟩ := htake
    rw [List.take_succ_cons, List.cons_append, hes, quotedLength?, if_neg hc, ← hes, ih hk,
      Option.map_some]

theorem quoted_splice {close : Char} (hclose : close ≠ ' ') {kind : TokenKind} {reason : String}
    (ht : Apart tail) (hn : (quoted close kind reason cs).2 < cs.length) :
    quoted close kind reason (cs.take (quoted close kind reason cs).2 ++ tail) =
      quoted close kind reason cs := by
  rcases hlength : quotedLength? close cs with _ | n
  · simp only [quoted, hlength, Nat.lt_irrefl] at hn
  · have hsplice := quotedLength?_splice hlength fun d hd => ht d hd ▸ hclose.symm
    simp only [quoted, hlength, hsplice]

/-! ## Numbers -/

theorem fractionLength_splice (ht : Apart tail) (hn : n < cs.length) (h : fractionLength cs ≤ n) :
    fractionLength (cs.take n ++ tail) = fractionLength cs := by
  obtain ⟨c, cs, rfl⟩ := List.exists_cons_of_length_pos (Nat.zero_lt_of_lt hn)
  by_cases hc : c = '.'
  · subst hc
    obtain ⟨k, rfl⟩ := Nat.exists_eq_add_of_le' (Nat.le_trans (Nat.le_add_left 1 _) h)
    exact congrArg (· + 1) (run_splice (Nat.lt_of_succ_lt_succ hn) (Nat.le_of_succ_le_succ h)
      fun _ => ht.fails rfl)
  · have hnone : ∀ (d : Char) (ds : List Char), d ≠ '.' → fractionLength (d :: ds) = 0 := by
      intro d ds hd
      unfold fractionLength
      split
      · next heq => exact absurd (List.cons.inj heq).1 hd
      · rfl
    rw [hnone c cs hc]
    rcases n with _ | n
    · rcases ht.cases with rfl | ⟨ds, rfl⟩
      · rfl
      · exact hnone ' ' ds (by decide)
    · exact hnone c _ hc

/-- The sign that an exponent may begin with. -/
def signLength : List Char → Nat
  | s :: _ => if s == '+' || s == '-' then 1 else 0
  | [] => 0

theorem exponent_cons (c : Char) (cs : List Char) :
    exponent (c :: cs) = if c == 'e' || c == 'E' then
      some (1 + signLength cs + run Char.isDigit (cs.drop (signLength cs)),
        run Char.isDigit (cs.drop (signLength cs)) != 0) else none := rfl

theorem signLength_splice (ht : Apart tail) (hn : n < cs.length) (h : signLength cs ≤ n) :
    signLength (cs.take n ++ tail) = signLength cs := by
  obtain ⟨c, cs, rfl⟩ := List.exists_cons_of_length_pos (Nat.zero_lt_of_lt hn)
  rcases n with _ | n
  · rw [Nat.le_zero.1 h]
    rcases ht.cases with rfl | ⟨ds, rfl⟩ <;> rfl
  · rfl

theorem exponent_splice (ht : Apart tail) (hn : n < cs.length)
    (h : ∀ k b, exponent cs = some (k, b) → k ≤ n) :
    exponent (cs.take n ++ tail) = exponent cs := by
  obtain ⟨c, cs, rfl⟩ := List.exists_cons_of_length_pos (Nat.zero_lt_of_lt hn)
  rw [exponent_cons] at h ⊢
  by_cases hc : (c == 'e' || c == 'E') = true
  · rw [if_pos hc] at h ⊢
    have hle := h _ _ rfl
    obtain ⟨k, rfl⟩ : ∃ k, n = k + 1 := ⟨n - 1, by omega⟩
    have hk : k < cs.length := Nat.lt_of_succ_lt_succ hn
    have hsign : signLength cs ≤ k := by omega
    have hdrop : (cs.drop (signLength cs)).length = cs.length - signLength cs := List.length_drop
    rw [List.take_succ_cons, List.cons_append, exponent_cons, if_pos hc,
      signLength_splice ht hk hsign, drop_splice hk hsign,
      run_splice (by omega) (by omega) fun _ => ht.fails rfl]
  · rw [if_neg hc]
    rcases n with _ | n
    · rcases ht.cases with rfl | ⟨ds, rfl⟩ <;> rfl
    · rw [List.take_succ_cons, List.cons_append, exponent_cons, if_neg hc]

theorem inWord_of_startsWord {c : Char} (h : startsWord c) : inWord c := by
  rcases Bool.or_eq_true_iff.1 h with h | h <;> simp [inWord, h]

theorem le_endNumber (kind : TokenKind) (m : Nat) (cs : List Char) :
    m ≤ (endNumber kind m cs).2 := by
  unfold endNumber
  split
  · split
    · exact Nat.le_add_right _ _
    · exact Nat.le_refl _
  · exact Nat.le_refl _

theorem endNumber_splice {kind : TokenKind} {m : Nat} (ht : Apart tail) (hn : n < cs.length)
    (h : (endNumber kind m cs).2 = m + n) :
    endNumber kind m (cs.take n ++ tail) = endNumber kind m cs := by
  obtain ⟨c, cs, rfl⟩ := List.exists_cons_of_length_pos (Nat.zero_lt_of_lt hn)
  by_cases hc : startsWord c
  · have hend : ∀ ds, endNumber kind m (c :: ds) =
        (.error "Invalid number literal", m + run inWord (c :: ds)) := fun ds => if_pos hc
    rw [hend] at h ⊢
    have hrun : run inWord (c :: cs) = n := Nat.add_left_cancel h
    have hsplice := run_splice hn (Nat.le_of_eq hrun) fun _ => ht.fails (by decide)
    rw [run_cons, if_pos (inWord_of_startsWord hc)] at hrun
    obtain ⟨k, rfl⟩ : ∃ k, n = k + 1 := ⟨_, hrun.symm⟩
    rw [List.take_succ_cons, List.cons_append] at hsplice ⊢
    rw [hend, hsplice]
  · have hend : ∀ ds, endNumber kind m (c :: ds) = (kind, m) := fun ds => if_neg hc
    rw [hend] at h ⊢
    obtain rfl : n = 0 := by omega
    rcases ht.cases with rfl | ⟨ds, rfl⟩
    · rfl
    · have hblank : ¬ startsWord ' ' := by decide
      rw [List.take_zero, List.nil_append, endNumber, if_neg hblank]

/-- The digits of a number and its fraction. -/
def mantissa (cs : List Char) : Nat :=
  run Char.isDigit cs + fractionLength (cs.drop (run Char.isDigit cs))

/-- The kind of a number without an exponent. -/
def mantissaKind (cs : List Char) : TokenKind :=
  if fractionLength (cs.drop (run Char.isDigit cs)) = 0 then .integer else .float

theorem decimalNumber_eq (cs : List Char) : decimalNumber cs =
    match exponent (cs.drop (mantissa cs)) with
    | some (k, true) => endNumber .float (mantissa cs + k) (cs.drop (mantissa cs + k))
    | some (k, false) => (.error "Invalid float: missing exponent", mantissa cs + k)
    | none => endNumber (mantissaKind cs) (mantissa cs) (cs.drop (mantissa cs)) := rfl

/-- A number goes on at least to the end of its exponent. -/
theorem le_decimalNumber (cs : List Char) : mantissa cs ≤ (decimalNumber cs).2 ∧
    ∀ k b, exponent (cs.drop (mantissa cs)) = some (k, b) →
      mantissa cs + k ≤ (decimalNumber cs).2 := by
  rw [decimalNumber_eq]
  rcases exponent (cs.drop (mantissa cs)) with _ | ⟨k, _ | _⟩
  · exact ⟨le_endNumber _ _ _, nofun⟩
  · refine ⟨Nat.le_add_right _ _, ?_⟩
    rintro _ _ ⟨⟩
    exact Nat.le_refl _
  · refine ⟨Nat.le_trans (Nat.le_add_right _ _) (le_endNumber _ _ _), ?_⟩
    rintro _ _ ⟨⟩
    exact le_endNumber _ _ _

theorem mantissa_splice (ht : Apart tail) (hn : n < cs.length) (h : mantissa cs ≤ n) :
    mantissa (cs.take n ++ tail) = mantissa cs ∧
      mantissaKind (cs.take n ++ tail) = mantissaKind cs := by
  unfold mantissa at h
  have hrun : run Char.isDigit cs ≤ n := by omega
  have hfraction : fractionLength ((cs.take n ++ tail).drop (run Char.isDigit cs)) =
      fractionLength (cs.drop (run Char.isDigit cs)) := by
    rw [drop_splice hn hrun]
    exact fractionLength_splice ht (by rw [List.length_drop]; omega) (by omega)
  unfold mantissa mantissaKind
  rw [run_splice hn hrun fun _ => ht.fails rfl, hfraction]
  exact ⟨rfl, rfl⟩

theorem decimalNumber_splice (ht : Apart tail) (hn : (decimalNumber cs).2 < cs.length) :
    decimalNumber (cs.take (decimalNumber cs).2 ++ tail) = decimalNumber cs := by
  obtain ⟨hmantissa, hexponent⟩ := le_decimalNumber cs
  generalize hlen : (decimalNumber cs).2 = n at hn hmantissa hexponent ⊢
  obtain ⟨hsame, hkind⟩ := mantissa_splice ht hn hmantissa
  have hexp : exponent ((cs.take n ++ tail).drop (mantissa cs)) =
      exponent (cs.drop (mantissa cs)) := by
    rw [drop_splice hn hmantissa]
    refine exponent_splice ht (by rw [List.length_drop]; omega) fun k b hk => ?_
    have hle := hexponent k b hk
    omega
  have hend {kind : TokenKind} {m : Nat} (hm : m ≤ n)
      (h : (endNumber kind m (cs.drop m)).2 = n) :
      endNumber kind m ((cs.take n ++ tail).drop m) = endNumber kind m (cs.drop m) := by
    rw [drop_splice hn hm]
    exact endNumber_splice ht (by rw [List.length_drop]; omega) (by omega)
  rw [decimalNumber_eq] at hlen ⊢
  rw [decimalNumber_eq, hsame, hkind, hexp]
  cases hexp' : exponent (cs.drop (mantissa cs)) with
  | none =>
    rw [hexp'] at hlen
    exact hend hmantissa hlen
  | some found =>
    obtain ⟨k, _ | _⟩ := found
    · rfl
    · rw [hexp'] at hlen
      exact hend (hexponent _ _ hexp') hlen

theorem hexadecimal_eq {x : Char} (hx : x == 'x' || x == 'X') (cs : List Char) :
    number ('0' :: x :: cs) = (if run isHexDigit cs = 0 then
      .error "Invalid hexadecimal literal" else .integer, run isHexDigit cs + 2) := by
  rw [number, if_pos hx]
  rcases run isHexDigit cs with _ | n <;> rfl

theorem number_eq {cs : List Char}
    (h : ∀ x ds, cs = '0' :: x :: ds → (x == 'x' || x == 'X') = false) :
    number cs = decimalNumber cs := by
  unfold number
  split
  · next x ds => rw [h x ds rfl, if_neg Bool.false_ne_true]
  · rfl

theorem number_splice (ht : Apart tail) (hn : (number cs).2 < cs.length) :
    number (cs.take (number cs).2 ++ tail) = number cs := by
  by_cases hhex : ∃ x ds, cs = '0' :: x :: ds ∧ (x == 'x' || x == 'X') = true
  · obtain ⟨x, ds, rfl, hx⟩ := hhex
    rw [hexadecimal_eq hx] at hn ⊢
    rw [List.take_succ_cons, List.take_succ_cons, List.cons_append, List.cons_append,
      hexadecimal_eq hx, run_splice (by simpa using hn) (Nat.le_refl _) fun _ => ht.fails rfl]
  · have hdecimal : ∀ x ds, cs = '0' :: x :: ds → (x == 'x' || x == 'X') = false :=
      fun x ds heq => Bool.eq_false_iff.2 fun hx => hhex ⟨x, ds, heq, hx⟩
    rw [number_eq hdecimal] at hn ⊢
    rw [number_eq, decimalNumber_splice ht hn]
    intro x ds heq
    obtain ⟨k, es, -, rfl, hk, heq⟩ := cons_splice ht hn heq (by decide)
    by_cases hx : x = ' '
    · rw [hx]
      rfl
    · obtain ⟨-, fs, -, rfl, -⟩ := cons_splice ht hk heq.symm hx
      exact hdecimal x fs rfl

theorem number_pos {c : Char} (hc : c.isDigit || (c == '.' && cs.head?.any Char.isDigit)) :
    0 < (number (c :: cs)).2 := by
  by_cases hhex : ∃ x ds, c :: cs = '0' :: x :: ds ∧ (x == 'x' || x == 'X') = true
  · obtain ⟨x, ds, heq, hx⟩ := hhex
    rw [heq, hexadecimal_eq hx]
    exact Nat.succ_pos _
  · rw [number_eq fun x ds heq => Bool.eq_false_iff.2 fun hx => hhex ⟨x, ds, heq, hx⟩]
    refine Nat.lt_of_lt_of_le ?_ (le_decimalNumber _).1
    rw [mantissa, run_cons]
    by_cases hdigit : c.isDigit
    · rw [if_pos hdigit]
      omega
    · obtain ⟨hdot, -⟩ := Bool.and_eq_true_iff.1 ((Bool.or_eq_true_iff.1 hc).resolve_left hdigit)
      obtain rfl := eq_of_beq hdot
      exact Nat.succ_pos _

/-- A number that begins with a point has a digit behind it. -/
theorem one_lt_number (h : cs.head?.any Char.isDigit) : 1 < (number ('.' :: cs)).2 := by
  rw [number_eq fun x ds heq => by cases heq]
  refine Nat.lt_of_lt_of_le ?_ (le_decimalNumber _).1
  rcases cs with _ | ⟨d, ds⟩
  · cases h
  · have hfraction : mantissa ('.' :: d :: ds) = 0 + (run Char.isDigit (d :: ds) + 1) := rfl
    have hd : d.isDigit := h
    rw [hfraction, run_cons, if_pos hd]
    omega

/-! ## Blobs and words -/

section Blob

variable {rest : List Char}

theorem drop_quote (cs : List Char) (k : Nat) : ('\'' :: cs).drop (1 + k) = cs.drop k := by
  rw [Nat.add_comm, List.drop_succ_cons]

theorem blob_open (h : cs.drop (run isHexDigit cs) = []) :
    blob ('\'' :: cs) = (.error "Unterminated blob literal", 1 + run isHexDigit cs) := by
  simp only [blob, List.drop_one, List.tail_cons, drop_quote, h]

theorem blob_closed (h : cs.drop (run isHexDigit cs) = '\'' :: rest) :
    blob ('\'' :: cs) = (if run isHexDigit cs % 2 = 1 then
      .error "Odd number of hex digits in blob literal" else .blob, run isHexDigit cs + 2) := by
  simp only [blob, List.drop_one, List.tail_cons, drop_quote, h, beq_self_eq_true, if_true]

theorem blob_invalid {c : Char} (h : cs.drop (run isHexDigit cs) = c :: rest) (hc : c ≠ '\'') :
    blob ('\'' :: cs) = (.error "Invalid character in blob literal",
      min (1 + run isHexDigit cs + run (· != '\'') (c :: rest) + 1) (cs.length + 1)) := by
  simp only [blob, List.drop_one, List.tail_cons, drop_quote, h, beq_iff_eq, hc, if_false,
    List.length_cons]

theorem blob_pos (hq : cs.head? = some '\'') : 0 < (blob cs).2 := by
  obtain ⟨cs, rfl⟩ := List.head?_eq_some_iff.1 hq
  cases hdrop : cs.drop (run isHexDigit cs) with
  | nil =>
    rw [blob_open hdrop]
    exact Nat.lt_of_lt_of_le Nat.one_pos (Nat.le_add_right _ _)
  | cons c rest =>
    by_cases hc : c = '\''
    · rw [blob_closed (hc ▸ hdrop)]
      exact Nat.succ_pos _
    · rw [blob_invalid hdrop hc]
      exact Nat.lt_min.2 ⟨Nat.succ_pos _, Nat.succ_pos _⟩

theorem blob_splice (ht : Apart tail) (hq : cs.head? = some '\'') (hn : (blob cs).2 < cs.length) :
    blob (cs.take (blob cs).2 ++ tail) = blob cs := by
  obtain ⟨cs, rfl⟩ := List.head?_eq_some_iff.1 hq
  rw [List.length_cons] at hn
  -- what is kept of the text behind the quote goes on behind its digits
  have hdigits {k : Nat} (hk : k < cs.length) (hle : run isHexDigit cs ≤ k) :
      run isHexDigit (cs.take k ++ tail) = run isHexDigit cs :=
    run_splice hk hle fun _ => ht.fails rfl
  cases hdrop : cs.drop (run isHexDigit cs) with
  | nil =>
    have hle := List.drop_eq_nil_iff.1 hdrop
    rw [blob_open hdrop] at hn
    dsimp only at hn
    omega
  | cons c rest =>
    have hlength : cs.length - run isHexDigit cs = rest.length + 1 := by
      rw [← List.length_drop, hdrop, List.length_cons]
    by_cases hc : c = '\''
    · subst hc
      rw [blob_closed hdrop] at hn ⊢
      dsimp only at hn ⊢
      have hk : run isHexDigit cs + 1 < cs.length := by omega
      have hkept : ((cs.take (run isHexDigit cs + 1) ++ tail).drop
          (run isHexDigit (cs.take (run isHexDigit cs + 1) ++ tail))) = '\'' :: tail := by
        rw [hdigits hk (Nat.le_succ _), drop_splice hk (Nat.le_succ _), Nat.add_sub_cancel_left,
          hdrop]
        rfl
      rw [List.take_succ_cons, List.cons_append, blob_closed hkept, hdigits hk (Nat.le_succ _)]
    · rw [blob_invalid hdrop hc] at hn ⊢
      dsimp only at hn ⊢
      generalize hskip : run (· != '\'') (c :: rest) = skipped at hn ⊢
      generalize hd : run isHexDigit cs = d at *
      have hk : d + skipped + 1 < cs.length := by omega
      have hmin : min (1 + d + skipped + 1) (cs.length + 1) = d + skipped + 1 + 1 := by omega
      have hkept : ((cs.take (d + skipped + 1) ++ tail).drop
          (run isHexDigit (cs.take (d + skipped + 1) ++ tail))) =
            c :: (rest.take skipped ++ tail) := by
        rw [hdigits hk (by omega), drop_splice hk (by omega), hdrop, Nat.add_assoc,
          Nat.add_sub_cancel_left]
        rfl
      have hrun : run (· != '\'') ((c :: rest).take (skipped + 1) ++ tail) =
          run (· != '\'') (c :: rest) := by
        refine run_splice ?_ (hskip ▸ Nat.le_succ _) fun h => ?_
        · rw [List.length_cons]
          omega
        · exact absurd (hskip.symm.trans h) (Nat.ne_of_lt (Nat.lt_succ_self _))
      rw [hskip, List.take_succ_cons, List.cons_append] at hrun
      have htake : (cs.take (d + skipped + 1) ++ tail).length = d + skipped + 1 + tail.length := by
        rw [List.length_append, List.length_take]
        omega
      rw [hmin, List.take_succ_cons, List.cons_append, blob_invalid hkept hc,
        hdigits hk (by omega), hrun, htake, Prod.mk.injEq]
      exact ⟨rfl, by omega⟩

end Blob

theorem namedParameter_splice (ht : Apart tail) (hn : (namedParameter cs).2 < cs.length) :
    namedParameter (cs.take (namedParameter cs).2 ++ tail) = namedParameter cs := by
  have heq : ∀ cs, namedParameter cs = (if run inWord cs = 0 then
      .error "Parameter name expected" else .parameter, run inWord cs) := by
    intro cs
    unfold namedParameter
    rcases run inWord cs with _ | n <;> rfl
  rw [heq] at hn ⊢
  rw [heq, run_splice hn (Nat.le_refl _) fun _ => ht.fails (by decide)]

theorem word_length (cs : List Char) : (word cs).2 = run inWord cs := by
  unfold word
  dsimp only
  split <;> rfl

theorem word_splice (ht : Apart tail) (hn : (word cs).2 < cs.length) :
    word (cs.take (word cs).2 ++ tail) = word cs := by
  rw [word_length] at hn ⊢
  have hrun : run inWord (cs.take (run inWord cs) ++ tail) = run inWord cs :=
    run_splice hn (Nat.le_refl _) fun _ => ht.fails (by decide)
  have htake : (cs.take (run inWord cs) ++ tail).take (run inWord cs) =
      cs.take (run inWord cs) := by
    rw [List.take_append_of_le_length (by rw [List.length_take]; omega), List.take_take,
      Nat.min_self]
  rw [word, hrun, htake, word]

/-! ## Marks -/

theorem mark?_of_none {c : Char} {next : Option Char} (h : mark? c next = none) :
    mark? c none = none := by
  unfold mark? at h ⊢
  split at h <;> simp_all

theorem mark?_of_alone {c : Char} {next : Option Char} {found : TokenKind × Nat}
    (h : mark? c next = some found) (hzero : found.2 = 0) : mark? c none = some found := by
  unfold mark? at h
  split at h <;> cases h <;> simp_all [mark?]

theorem ne_space_of_opening? {c close : Char} {kind : TokenKind} {reason : String}
    (h : opening? c = some (close, kind, reason)) : close ≠ ' ' := by
  unfold opening? at h
  split at h <;> cases h <;> decide

section Words

variable {c : Char} {rest : List Char}

/-- A token of `m` characters that begin a list. -/
theorem cons_take_splice {m : Nat} (hm : 0 < m) (c : Char) (rest tail : List Char) :
    (c :: rest).take m ++ tail = c :: (rest.take (m - 1) ++ tail) := by
  obtain ⟨k, rfl⟩ := Nat.exists_eq_succ_of_ne_zero (Nat.ne_of_gt hm)
  rfl

/-- A blob and nothing else begins as a blob does. -/
theorem startsBlob_splice (ht : Apart tail) (hn : n < rest.length)
    (h : ((c == 'x' || c == 'X') && rest.head? == some '\'') = true → n ≠ 0) :
    ((c == 'x' || c == 'X') && (rest.take n ++ tail).head? == some '\'') =
      ((c == 'x' || c == 'X') && rest.head? == some '\'') :=
  ask_splice (fun o => (c == 'x' || c == 'X') && o == some '\'') ht hn rfl fun hzero => by
    rw [Bool.eq_false_iff.2 fun hblob => h hblob hzero]
    exact Bool.and_false _

/-- A number and nothing else begins as a number does. -/
theorem startsNumber_splice (ht : Apart tail) (hn : n < rest.length)
    (h : (c == '.' && rest.head?.any Char.isDigit) = true → n ≠ 0) :
    (c.isDigit || (c == '.' && (rest.take n ++ tail).head?.any Char.isDigit)) =
      (c.isDigit || (c == '.' && rest.head?.any Char.isDigit)) :=
  ask_splice (fun o => c.isDigit || (c == '.' && o.any Char.isDigit)) ht hn rfl fun hzero => by
    rw [Bool.eq_false_iff.2 fun hdot => h hdot hzero]
    exact congrArg _ (Bool.and_false _)

theorem numeral_splice (ht : Apart tail)
    (hc : c.isDigit || (c == '.' && rest.head?.any Char.isDigit))
    (hn : (number (c :: rest)).2 - 1 < rest.length) :
    number (c :: (rest.take ((number (c :: rest)).2 - 1) ++ tail)) = number (c :: rest) := by
  have hpos := number_pos hc
  rw [← cons_take_splice hpos, number_splice ht]
  rw [List.length_cons]
  omega

theorem name_splice (ht : Apart tail) (hc : startsWord c)
    (hn : (word (c :: rest)).2 - 1 < rest.length) :
    word (c :: (rest.take ((word (c :: rest)).2 - 1) ++ tail)) = word (c :: rest) := by
  have hpos : 0 < (word (c :: rest)).2 := by
    rw [word_length, run_cons, if_pos (inWord_of_startsWord hc)]
    exact Nat.succ_pos _
  rw [← cons_take_splice hpos, word_splice ht]
  rw [List.length_cons]
  omega

end Words

end Lexeme

open Lexeme in
/-- A token that does not take all the text behind it is the same with a space, or nothing, in place
of the text behind its end. -/
theorem lexeme_splice {c : Char} {rest tail : List Char} (ht : Apart tail)
    (hn : (lexeme c rest).2 < rest.length) :
    lexeme c (rest.take (lexeme c rest).2 ++ tail) = lexeme c rest := by
  generalize hfound : lexeme c rest = found at hn ⊢
  unfold lexeme at hfound ⊢
  -- the questions that the reader asks are answered one after the other
  cases hsingle : single? c with
  | some kind =>
    rw [hsingle] at hfound
    exact hfound
  | none =>
  rw [hsingle] at hfound
  cases hmark : mark? c rest.head? with
  | some mark =>
    rw [hmark] at hfound
    obtain rfl : mark = found := hfound
    rw [ask_splice (mark? c) ht hn (mark?_eq_alone (by decide) c) fun hzero => by
      rw [hmark]
      exact mark?_of_alone hmark hzero, hmark]
  | none =>
  rw [hmark] at hfound
  rw [ask_splice (mark? c) ht hn (mark?_eq_alone (by decide) c) fun _ => by
    rw [hmark]
    exact mark?_of_none hmark, hmark]
  cases hopening : opening? c with
  | some quotes =>
    obtain ⟨close, kind, reason⟩ := quotes
    rw [hopening] at hfound
    subst hfound
    exact quoted_splice (ne_space_of_opening? hopening) ht hn
  | none =>
  rw [hopening] at hfound
  dsimp only at hfound ⊢
  by_cases hquestion : c == '?'
  · rw [if_pos hquestion] at hfound ⊢
    subst hfound
    rw [run_splice hn (Nat.le_refl _) fun _ => ht.fails rfl]
  rw [if_neg hquestion] at hfound ⊢
  by_cases hparameter : c == ':' || c == '@' || c == '$'
  · rw [if_pos hparameter] at hfound ⊢
    subst hfound
    exact namedParameter_splice ht hn
  rw [if_neg hparameter] at hfound ⊢
  by_cases hblob : ((c == 'x' || c == 'X') && rest.head? == some '\'') = true
  · have hquote : rest.head? = some '\'' := eq_of_beq (Bool.and_eq_true_iff.1 hblob).2
    rw [if_pos hblob] at hfound
    subst hfound
    rw [startsBlob_splice ht hn fun _ => Nat.ne_of_gt (blob_pos hquote), if_pos hblob]
    exact blob_splice ht hquote hn
  rw [if_neg hblob] at hfound
  rw [startsBlob_splice ht hn fun h => absurd h hblob, if_neg hblob]
  by_cases hnumber : (c.isDigit || (c == '.' && rest.head?.any Char.isDigit)) = true
  · rw [if_pos hnumber] at hfound
    subst hfound
    have hdot : (c == '.' && rest.head?.any Char.isDigit) = true →
        (number (c :: rest)).2 - 1 ≠ 0 := by
      intro h
      obtain ⟨hc, hdigit⟩ := Bool.and_eq_true_iff.1 h
      obtain rfl := eq_of_beq hc
      exact Nat.ne_of_gt (Nat.sub_pos_of_lt (one_lt_number hdigit))
    rw [startsNumber_splice ht hn hdot, if_pos hnumber]
    exact congrArg (fun x => (x.1, x.2 - 1)) (numeral_splice ht hnumber hn)
  rw [if_neg hnumber] at hfound
  rw [startsNumber_splice ht hn fun h => absurd (Bool.or_eq_true_iff.2 (.inr h)) hnumber,
    if_neg hnumber]
  by_cases hdot : c == '.'
  · rw [if_pos hdot] at hfound ⊢
    exact hfound
  rw [if_neg hdot] at hfound ⊢
  by_cases hword : startsWord c
  · rw [if_pos hword] at hfound ⊢
    subst hfound
    exact congrArg (fun x => (x.1, x.2 - 1)) (name_splice ht hword hn)
  rw [if_neg hword] at hfound ⊢
  exact hfound

end SqlSyntax

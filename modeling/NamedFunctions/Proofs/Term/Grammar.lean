import NamedFunctions.Term.Parser

/-!
# The grammar of expressions

An expression is one or more atoms, which are applied from left to right. An atom is an expression between
parentheses, a binder with the expression that it binds in, or a variable:

    M ::= A A*
    A ::= '(' M ')' | '\' w '.' M | 'λ' w '.' M | '@' w M | v

Blanks may stand in front of each A and at the end of each M. A word is as long as it can be, and so is the
body of a binder: it goes on up to the parenthesis that closes what is around it, or to the end of the text.
A derivation therefore says what it leaves of a text. The tokens of a derived text are those of its parts,
one after the other.
-/

namespace NamedFunctions.Term

variable {p : Char → Bool} {word cs rest text inner : List Char} {param : String} {c : Char} {n : Nat}
  {t : Term}

/-- Characters of one kind that stand in front of a rest with no more of them. -/
structure IsWord (p : Char → Bool) (word rest : List Char) : Prop where
  ne_nil : word ≠ []
  all : ∀ c ∈ word, p c = true
  maximal : ∀ c ∈ rest.head?, p c = false

/-- Whether a character can stand in a parameter behind a backslash or a lambda. -/
def isParamChar (c : Char) : Bool := isWordChar c && c != '.'

/-- The signs of the binders whose parameter ends in front of a dot. -/
def IsSign (c : Char) : Prop := c = '\\' ∨ c = 'λ'

/-- Nothing but blanks. -/
def AreBlanks (cs : List Char) : Prop := ∀ c ∈ cs, Text.isBlank c = true

/-- No characters are blanks. -/
theorem AreBlanks.nil : AreBlanks [] := by simp [AreBlanks]

/-- Blanks are followed by blanks. -/
theorem AreBlanks.snoc (h : AreBlanks cs) (hc : Text.isBlank c = true) : AreBlanks (cs ++ [c]) := by
  intro d hd
  rcases List.mem_append.mp hd with hd | hd
  · exact h d hd
  · rw [List.mem_singleton.mp hd]
    exact hc

private theorem isWordChar_eq_true :
    isWordChar c = true ↔ Text.isBlank c = false ∧ c ≠ '(' ∧ c ≠ ')' := by
  simp [isWordChar, and_assoc]

/-- What can stand in a parameter can stand in a word. -/
theorem isWordChar_of_isParamChar (h : isParamChar c = true) : isWordChar c = true :=
  (Bool.and_eq_true_iff.mp h).1

namespace IsWord

private theorem takeWhile_rest (h : IsWord p word rest) : rest.takeWhile p = [] := by
  cases rest with
  | nil => rfl
  | cons c cs => exact List.takeWhile_cons_of_neg (by simp [h.maximal c rfl])

private theorem dropWhile_rest (h : IsWord p word rest) : rest.dropWhile p = rest := by
  cases rest with
  | nil => rfl
  | cons c cs => exact List.dropWhile_cons_of_neg (by simp [h.maximal c rfl])

private theorem takeWhile (h : IsWord p word rest) : (word ++ rest).takeWhile p = word := by
  rw [List.takeWhile_append_of_pos h.all, h.takeWhile_rest, List.append_nil]

private theorem dropWhile (h : IsWord p word rest) : (word ++ rest).dropWhile p = rest := by
  rw [List.dropWhile_append_of_pos h.all, h.dropWhile_rest]

/-- The first characters of a text, if any are of a kind, are a word of that kind. -/
theorem of_takeWhile (h : cs.takeWhile p ≠ []) : IsWord p (cs.takeWhile p) (cs.dropWhile p) where
  ne_nil := h
  all := List.all_eq_true.mp List.all_takeWhile
  maximal c hc := by
    have hlast := List.head?_dropWhile_not p cs
    rw [Option.mem_def.mp hc] at hlast
    exact hlast

private theorem cons_takeWhile (hc : p c = true) : IsWord p (c :: cs.takeWhile p) (cs.dropWhile p) := by
  have h : IsWord p ((c :: cs).takeWhile p) ((c :: cs).dropWhile p) := .of_takeWhile (by simp [hc])
  rwa [List.takeWhile_cons_of_pos hc, List.dropWhile_cons_of_pos hc] at h

end IsWord

/-- What can be derived. -/
inductive Symbol where
  /-- Atoms that are applied from left to right, and blanks behind them. -/
  | expression
  /-- Atoms that are applied from left to right. -/
  | atoms
  /-- Parentheses, a binder with its body, or a variable. -/
  | atom
deriving DecidableEq, Repr

/-- The end of the text, or of what stands between parentheses. -/
def Stops (rest : List Char) : Prop := ∀ c ∈ rest.head?, c = ')'

/-- A text starts with a binder, in one of its three forms. -/
inductive Binds : List Char → String → List Char → Prop where
  | dotted {sign : Char} {param inner : List Char} (hsign : IsSign sign)
      (hparam : IsWord isParamChar param ('.' :: inner)) :
      Binds (sign :: (param ++ '.' :: inner)) (String.ofList param) inner
  | bare {param inner : List Char} (hparam : IsWord isWordChar param inner) :
      Binds ('@' :: (param ++ inner)) (String.ofList param) inner

/-- `Derives symbol n text t rest`: what a text has in front of a rest is derived from a symbol and spells
a term, with no more than `n` expressions inside each other, and as many as that somewhere. -/
inductive Derives : Symbol → Nat → List Char → Term → List Char → Prop where
  | first {n : Nat} {blanks text rest : List Char} {t : Term} (hblanks : AreBlanks blanks)
      (ht : Derives .atom n text t rest) : Derives .atoms n (blanks ++ text) t rest
  | apply {m n : Nat} {blanks text middle rest : List Char} {f t : Term}
      (hf : Derives .atoms m text f (blanks ++ middle)) (hblanks : AreBlanks blanks)
      (ht : Derives .atom n middle t rest) : Derives .atoms (max m n) text (.app f t) rest
  | expression {n : Nat} {blanks text rest : List Char} {t : Term}
      (ht : Derives .atoms n text t (blanks ++ rest)) (hblanks : AreBlanks blanks) :
      Derives .expression (n + 1) text t rest
  | group {n : Nat} {text rest : List Char} {t : Term}
      (ht : Derives .expression n text t (')' :: rest)) : Derives .atom n ('(' :: text) t rest
  | abstraction {n : Nat} {text inner rest : List Char} {param : String} {t : Term}
      (hparam : Binds text param inner) (ht : Derives .expression n inner t rest)
      (hstops : Stops rest) : Derives .atom n text (.abs param t) rest
  | word {word rest : List Char} (hword : IsWord isWordChar word rest)
      (hname : ∀ c ∈ word.head?, ¬ IsSign c ∧ c ≠ '@') :
      Derives .atom 0 (word ++ rest) (.var (String.ofList word)) rest

/-- An expression is at least one. -/
theorem Derives.pos (h : Derives .expression n text t rest) : 0 < n := by
  cases h
  exact Nat.succ_pos _

/-- What is left of a text from the first parenthesis on that closes none of those that are opened in it or
that are open from before, as many as are given. -/
def fromClosing : Nat → List Char → List Char
  | _, [] => []
  | opened, c :: cs =>
    if c = '(' then fromClosing (opened + 1) cs
    else if c = ')' then if opened = 0 then c :: cs else fromClosing (opened - 1) cs
    else fromClosing opened cs

private theorem fromClosing_append {taken : List Char} (h : ∀ c ∈ taken, c ≠ '(' ∧ c ≠ ')') (opened : Nat)
    (rest : List Char) : fromClosing opened (taken ++ rest) = fromClosing opened rest := by
  induction taken with
  | nil => rfl
  | cons c taken ih =>
    obtain ⟨hopening, hclosing⟩ := h c List.mem_cons_self
    rw [List.cons_append, fromClosing, if_neg hopening, if_neg hclosing]
    exact ih fun d hd => h d (List.mem_cons_of_mem c hd)

private theorem fromClosing_of_stops (h : Stops rest) : fromClosing 0 rest = rest := by
  cases rest with
  | nil => rfl
  | cons c cs =>
    obtain rfl := h c rfl
    rfl

private theorem isSuffix_fromClosing (opened : Nat) (cs : List Char) : fromClosing opened cs <:+ cs := by
  induction cs generalizing opened with
  | nil => exact List.suffix_refl []
  | cons c cs ih =>
    rw [fromClosing]
    split
    · exact (ih _).trans (List.suffix_cons c cs)
    · split
      · split
        · exact List.suffix_refl _
        · exact (ih _).trans (List.suffix_cons c cs)
      · exact (ih _).trans (List.suffix_cons c cs)

private theorem AreBlanks.fromClosing_append {blanks : List Char} (h : AreBlanks blanks) (opened : Nat)
    (rest : List Char) : fromClosing opened (blanks ++ rest) = fromClosing opened rest := by
  refine Term.fromClosing_append (fun c hc => ?_) opened rest
  have hblank := h c hc
  constructor <;> rintro rfl <;> revert hblank <;> decide

private theorem IsWord.fromClosing_append (h : IsWord isWordChar word rest) (opened : Nat) :
    fromClosing opened (word ++ rest) = fromClosing opened rest :=
  Term.fromClosing_append (fun c hc => (isWordChar_eq_true.mp (h.all c hc)).2) opened rest

private theorem Binds.fromClosing_eq (h : Binds text param inner) (opened : Nat) :
    fromClosing opened text = fromClosing opened inner := by
  cases h with
  | @dotted sign param _ hsign hparam =>
    have htext : sign :: (param ++ '.' :: inner) = (sign :: (param ++ ['.'])) ++ inner := by simp
    rw [htext]
    refine Term.fromClosing_append (fun c hc => ?_) opened inner
    rcases List.mem_cons.mp hc with rfl | hc
    · rcases hsign with rfl | rfl <;> decide
    · rcases List.mem_append.mp hc with hc | hc
      · exact (isWordChar_eq_true.mp (isWordChar_of_isParamChar (hparam.all c hc))).2
      · rw [List.mem_singleton.mp hc]
        decide
  | bare hparam => exact hparam.fromClosing_append opened

/-- What a derivation takes of a text closes all that it opens, and nothing else. -/
theorem Derives.fromClosing_eq {symbol : Symbol} (h : Derives symbol n text t rest) (opened : Nat) :
    fromClosing opened text = fromClosing opened rest := by
  induction h generalizing opened with
  | first hblanks _ ih => rw [hblanks.fromClosing_append, ih]
  | apply _ hblanks _ ihf iht => rw [ihf, hblanks.fromClosing_append, iht]
  | expression _ hblanks ih => rw [ih, hblanks.fromClosing_append]
  | group _ ih => exact ih (opened + 1)
  | abstraction hparam _ _ ih => rw [hparam.fromClosing_eq, ih]
  | word hword => exact hword.fromClosing_append opened

/-- An expression that stops at a parenthesis or at the end of the text goes as far as any expression that
is derived from the same text. -/
theorem Derives.isSuffix_of_stops {n' : Nat} {t' : Term} {rest' : List Char}
    (h : Derives .expression n text t rest) (hstops : Stops rest)
    (h' : Derives .expression n' text t' rest') : rest <:+ rest' := by
  have heq : rest = fromClosing 0 rest' := by
    rw [← h'.fromClosing_eq, h.fromClosing_eq, fromClosing_of_stops hstops]
  exact heq ▸ isSuffix_fromClosing 0 rest'

/-- Blanks are no part of any token. -/
theorem scan_blanks {blanks : List Char} (h : AreBlanks blanks) (offset : Nat) (cs : List Char) :
    ∃ offset', scan offset (blanks ++ cs) = scan offset' cs := by
  induction blanks generalizing offset with
  | nil => exact ⟨offset, rfl⟩
  | cons c blanks ih =>
    obtain ⟨offset', h'⟩ := ih (fun d hd => h d (List.mem_cons_of_mem c hd)) (offset + c.utf8Size)
    refine ⟨offset', ?_⟩
    rw [List.cons_append, scan]
    simp only [h c List.mem_cons_self, if_true]
    exact h'

/-- An opening parenthesis is a single token. -/
theorem scan_opening (offset : Nat) (cs : List Char) :
    ∃ offset', scan offset ('(' :: cs) = .token .opening offset (scan offset' cs) := by
  have hblank : Text.isBlank '(' = false := by decide
  refine ⟨offset + '('.utf8Size, ?_⟩
  rw [scan]
  simp [hblank]

/-- A closing parenthesis is a single token. -/
theorem scan_closing (offset : Nat) (cs : List Char) :
    ∃ offset', scan offset (')' :: cs) = .token .closing offset (scan offset' cs) := by
  have hblank : Text.isBlank ')' = false := by decide
  refine ⟨offset + ')'.utf8Size, ?_⟩
  rw [scan]
  simp [hblank]

/-- A binder is a single token. -/
theorem Binds.scan_eq (h : Binds text param inner) (offset : Nat) :
    ∃ offset', scan offset text = .token (.binder param) offset (scan offset' inner) := by
  cases h with
  | @dotted sign param _ hsign hparam =>
    have hblank : Text.isBlank sign = false := by rcases hsign with rfl | rfl <;> decide
    have hopening : sign ≠ '(' := by rcases hsign with rfl | rfl <;> decide
    have hclosing : sign ≠ ')' := by rcases hsign with rfl | rfl <;> decide
    have hname : (param ++ '.' :: inner).takeWhile (fun c => isWordChar c && c != '.') = param :=
      hparam.takeWhile
    have hafter : (param ++ '.' :: inner).dropWhile (fun c => isWordChar c && c != '.') = '.' :: inner :=
      hparam.dropWhile
    have hsign' : sign = '\\' ∨ sign = 'λ' := hsign
    have hne : param.isEmpty = false := List.isEmpty_eq_false_iff.mpr hparam.ne_nil
    rw [scan]
    simp only [hblank, hopening, hclosing, hsign', hname, hne, Bool.false_eq_true, if_false, if_true]
    split
    · next h =>
      rw [hafter] at h
      cases h
    · next h =>
      rw [hafter] at h
      cases h
      exact ⟨_, if_pos rfl⟩
  | @bare param _ hparam =>
    have hblank : Text.isBlank '@' = false := by decide
    refine ⟨offset + '@'.utf8Size + octets param, ?_⟩
    rw [scan]
    simp [hblank, hparam.takeWhile, hparam.dropWhile, hparam.ne_nil]

/-- A variable is a single token. -/
theorem scan_word (hword : IsWord isWordChar word rest) (hname : ∀ c ∈ word.head?, ¬ IsSign c ∧ c ≠ '@')
    (offset : Nat) : ∃ offset', scan offset (word ++ rest) =
      .token (.word (String.ofList word)) offset (scan offset' rest) := by
  obtain ⟨c, tail, rfl⟩ := List.exists_cons_of_ne_nil hword.ne_nil
  have htail (d : Char) (hd : d ∈ tail) : isWordChar d = true := hword.all d (List.mem_cons_of_mem c hd)
  obtain ⟨hblank, hopening, hclosing⟩ := isWordChar_eq_true.mp (hword.all c List.mem_cons_self)
  obtain ⟨hsign, hat⟩ := hname c rfl
  rw [IsSign] at hsign
  rw [List.cons_append, scan]
  simp only [hblank, hopening, hclosing, hsign, hat, Bool.false_eq_true, if_false]
  rw [List.takeWhile_append_of_pos htail, List.dropWhile_append_of_pos htail, hword.takeWhile_rest,
    hword.dropWhile_rest, List.append_nil]
  exact ⟨_, rfl⟩

private theorem octets_append (cs ds : List Char) : octets (cs ++ ds) = octets cs + octets ds := by
  induction cs with
  | nil => exact (Nat.zero_add _).symm
  | cons c cs ih =>
    change c.utf8Size + octets (cs ++ ds) = c.utf8Size + octets cs + octets ds
    rw [ih, Nat.add_assoc]

private theorem octets_cons (c : Char) (cs : List Char) : octets (c :: cs) = c.utf8Size + octets cs := rfl

private theorem octets_snoc (cs : List Char) (c : Char) : octets (cs ++ [c]) = octets cs + c.utf8Size :=
  octets_append cs [c]

/-- The place that an error points to. -/
def ParseError.offset? : ParseError → Option Nat
  | missingTerm offset => some offset
  | unclosed => none
  | unexpected _ offset => some offset
  | tooDeep => none

/-- A place in a text between two of its characters, or at one of its ends. -/
def IsPlace (text : List Char) (offset : Nat) : Prop :=
  ∃ before after, text = before ++ after ∧ offset = octets before

/-- An error points to such a place, if to any. -/
def ParseError.PointsInto (error : ParseError) (text : List Char) : Prop :=
  ∀ offset ∈ error.offset?, IsPlace text offset

/-- How the tokens come about that follow what has been scanned. -/
inductive Scanned : List Char → List Char → Tokens → Prop where
  | done {scanned : List Char} : Scanned scanned [] (.done (octets scanned))
  | fault {scanned text : List Char} {error : ParseError}
      (h : error.PointsInto (scanned ++ text)) : Scanned scanned text (.fault error)
  | blank {scanned rest : List Char} {c : Char} {tokens : Tokens} (hc : Text.isBlank c = true)
      (h : Scanned (scanned ++ [c]) rest tokens) : Scanned scanned (c :: rest) tokens
  | opening {scanned rest : List Char} {tokens : Tokens} (h : Scanned (scanned ++ ['(']) rest tokens) :
      Scanned scanned ('(' :: rest) (.token .opening (octets scanned) tokens)
  | closing {scanned rest : List Char} {tokens : Tokens} (h : Scanned (scanned ++ [')']) rest tokens) :
      Scanned scanned (')' :: rest) (.token .closing (octets scanned) tokens)
  | binder {scanned text binder inner : List Char} {param : String} {tokens : Tokens}
      (htext : text = binder ++ inner) (hbinder : Binds text param inner)
      (h : Scanned (scanned ++ binder) inner tokens) :
      Scanned scanned text (.token (.binder param) (octets scanned) tokens)
  | word {scanned text word rest : List Char} {tokens : Tokens} (htext : text = word ++ rest)
      (hword : IsWord isWordChar word rest) (hname : ∀ c ∈ word.head?, ¬ IsSign c ∧ c ≠ '@')
      (h : Scanned (scanned ++ word) rest tokens) :
      Scanned scanned text (.token (.word (String.ofList word)) (octets scanned) tokens)

/-- An error between two parts of a text points into it. -/
theorem ParseError.pointsInto_of_offset? {error : ParseError} (before after : List Char)
    (h : error.offset? = some (octets before)) : error.PointsInto (before ++ after) := by
  intro offset hoffset
  rw [h] at hoffset
  cases hoffset
  exact ⟨before, after, rfl, rfl⟩

/-- What is unexpected is pointed to behind some of the text that is not yet scanned. -/
theorem Scanned.unexpected {scanned : List Char} {place : Nat} (token : String) (taken : List Char)
    (htext : text = taken ++ rest) (hplace : place = octets scanned + octets taken) :
    Scanned scanned text (.fault (.unexpected token place)) := by
  refine .fault ?_
  rw [htext, ← List.append_assoc]
  refine ParseError.pointsInto_of_offset? (scanned ++ taken) rest ?_
  rw [octets_append, hplace, ParseError.offset?]

/-- Whatever a text is, its tokens come about in these ways. -/
theorem scanned_scan (scanned cs : List Char) : Scanned scanned cs (scan (octets scanned) cs) := by
  generalize hoffset : octets scanned = offset
  fun_induction scan offset cs generalizing scanned with
  | case1 =>
    rw [← hoffset]
    exact .done
  | case2 offset c rest start hc ih => exact .blank hc (ih _ (by rw [octets_snoc, hoffset]))
  | case3 offset rest start hblank ih =>
    rw [← hoffset]
    exact .opening (ih _ (by rw [octets_snoc, hoffset]))
  | case4 offset rest start hblank hopening ih =>
    rw [← hoffset]
    exact .closing (ih _ (by rw [octets_snoc, hoffset]))
  | case5 offset c rest start hblank hopening hclosing hsign inName name hname =>
    exact .unexpected _ [c] rfl (by rw [hoffset]; rfl)
  | case6 offset c rest start hblank hopening hclosing hsign inName name stop hname hafter =>
    have hrest : rest = name ++ [] := by rw [← hafter, List.takeWhile_append_dropWhile]
    refine .unexpected _ (c :: name) (congrArg (c :: ·) hrest) ?_
    rw [hoffset, octets_cons, ← Nat.add_assoc]
  | case7 offset c rest start hblank hopening hclosing hsign inName name stop hname after hafter _ ih =>
    have hrest : rest = name ++ '.' :: after := by rw [← hafter, List.takeWhile_append_dropWhile]
    have hparam : IsWord isParamChar name ('.' :: after) := by
      rw [← hafter]
      exact .of_takeWhile (mt List.isEmpty_iff.mpr hname)
    have htext : c :: rest = (c :: (name ++ ['.'])) ++ after := by rw [hrest]; simp
    rw [← hoffset]
    refine .binder htext ?_ (ih _ ?_)
    · rw [hrest]
      exact .dotted hsign hparam
    · rw [octets_append, hoffset, octets_cons, octets_snoc, ← Nat.add_assoc, ← Nat.add_assoc]
      rfl
  | case8 offset c rest start hblank hopening hclosing hsign inName name stop hname d after hafter _ hdot =>
    have hrest : rest = name ++ d :: after := by rw [← hafter, List.takeWhile_append_dropWhile]
    have htext : c :: rest = (c :: (name ++ [d])) ++ after := by rw [hrest]; simp
    refine .unexpected _ (c :: (name ++ [d])) htext ?_
    rw [hoffset, octets_cons, octets_snoc, ← Nat.add_assoc, ← Nat.add_assoc]
  | case9 offset rest name _ hname start =>
    exact .unexpected _ ['@'] rfl (by rw [hoffset]; rfl)
  | case10 offset rest name _ hname start hblank hopening hclosing hsign ih =>
    have hrest : rest = name ++ rest.dropWhile isWordChar := List.takeWhile_append_dropWhile.symm
    have hparam : IsWord isWordChar name (rest.dropWhile isWordChar) :=
      .of_takeWhile (mt List.isEmpty_iff.mpr hname)
    have htext : '@' :: rest = ('@' :: name) ++ rest.dropWhile isWordChar := congrArg ('@' :: ·) hrest
    rw [← hoffset]
    refine .binder htext ?_ (ih _ ?_)
    · have hbare := Binds.bare hparam
      rwa [← hrest] at hbare
    · rw [octets_append, hoffset, octets_cons, ← Nat.add_assoc]
  | case11 offset c rest start hblank hopening hclosing hsign hat tail _ ih =>
    have hc : isWordChar c = true := isWordChar_eq_true.mpr ⟨by simpa using hblank, hopening, hclosing⟩
    have hrest : c :: rest = (c :: tail) ++ rest.dropWhile isWordChar := by simp [tail]
    have hword : IsWord isWordChar (c :: tail) (rest.dropWhile isWordChar) := .cons_takeWhile hc
    rw [← hoffset]
    refine .word hrest hword ?_ (ih _ ?_)
    · intro d hd
      cases hd
      exact ⟨hsign, hat⟩
    · rw [octets_append, hoffset, octets_cons, ← Nat.add_assoc]

end NamedFunctions.Term

import Mathlib.Control.Monad.Basic
import NamedFunctions.Proofs.Term.Reading

/-!
# Reading what is printed

A term that was read is printed as a text that is derived with that term, unless one of its parameters
has a dot in it: an at sign lets a parameter have dots, but the written form puts every parameter between
a backslash and a dot, so that it ends at the first one. Parentheses that are printed enclose no more
expressions than the term has levels.
-/

namespace NamedFunctions.Term

variable {text rest : List Char} {n : Nat} {t : Term} {symbol : Symbol}

/-- The parameters of a term. -/
def params : Term → List String
  | var _ => []
  | app function argument => function.params ++ argument.params
  | abs param body => param :: body.params

/-- The names of a term are words, and those of its variables do not start a binder. -/
def Spelled : Term → Prop
  | var name => IsWord isWordChar name.toList [] ∧ ∀ c ∈ name.toList.head?, ¬ IsSign c ∧ c ≠ '@'
  | app function argument => function.Spelled ∧ argument.Spelled
  | abs param body => IsWord isWordChar param.toList [] ∧ body.Spelled

private theorem IsWord.of_append {p : Char → Bool} {word : List Char} (h : IsWord p word rest) :
    IsWord p word [] :=
  ⟨h.ne_nil, h.all, by simp⟩

private theorem Binds.isWord {param : String} {inner : List Char} (h : Binds text param inner) :
    IsWord isWordChar param.toList [] := by
  cases h with
  | dotted _ hparam =>
    rw [String.toList_ofList]
    exact ⟨hparam.ne_nil, fun c hc => isWordChar_of_isParamChar (hparam.all c hc), by simp⟩
  | bare hparam =>
    rw [String.toList_ofList]
    exact hparam.of_append

/-- What is derived is spelled with words. -/
theorem Derives.spelled (h : Derives symbol n text t rest) : t.Spelled := by
  induction h with
  | first _ _ ih | expression _ _ ih | group _ ih => exact ih
  | apply _ _ _ ihf iht => exact ⟨ihf, iht⟩
  | abstraction hparam _ _ ih => exact ⟨hparam.isWord, ih⟩
  | word hword hname =>
    rw [Spelled, String.toList_ofList]
    exact ⟨hword.of_append, hname⟩

private theorem chars_app (f t : Term) : (Term.app f t).chars =
    (if f.isAbstraction then '(' :: (f.chars ++ [')']) else f.chars) ++
      ' ' :: (if t.isVariable then t.chars else '(' :: (t.chars ++ [')'])) := rfl

/-- What a printed term ends in front of: no more of a word, and nothing to apply an abstraction to. -/
def Ends (t : Term) (rest : List Char) : Prop :=
  (∀ c ∈ rest.head?, isWordChar c = false) ∧ (t.isAbstraction → Stops rest)

private theorem Derives.of_atom (h : Derives .atom n text t rest) : Derives .atoms n text t rest :=
  .first .nil h

private theorem Derives.of_atoms (h : Derives .atoms n text t rest) :
    Derives .expression (n + 1) text t rest :=
  have h' : Derives .atoms n text t ([] ++ rest) := h
  .expression h' .nil

private theorem derives_var {name : String} (hname : (var name).Spelled)
    (hrest : ∀ c ∈ rest.head?, isWordChar c = false) :
    Derives .atom 0 (name.toList ++ rest) (.var name) rest := by
  have h : Derives .atom 0 (name.toList ++ rest) (.var (String.ofList name.toList)) rest :=
    .word ⟨hname.1.ne_nil, hname.1.all, hrest⟩ hname.2
  rwa [String.ofList_toList] at h

private theorem derives_abs {param : String} {body : Term} (hparam : IsWord isWordChar param.toList [])
    (hdot : '.' ∉ param.toList) (hbody : Derives .atoms n (body.chars ++ rest) body rest)
    (hstops : Stops rest) :
    Derives .atom (n + 1) ((abs param body).chars ++ rest) (.abs param body) rest := by
  have hword : IsWord isParamChar param.toList ('.' :: (body.chars ++ rest)) := by
    refine ⟨hparam.ne_nil, fun c hc => ?_, by simp [isParamChar]⟩
    have hne : c ≠ '.' := fun h => hdot (h ▸ hc)
    simp [isParamChar, hparam.all c hc, hne]
  have hbinds := Binds.dotted (.inl rfl) hword
  rw [String.ofList_toList] at hbinds
  have htext : (abs param body).chars ++ rest =
      '\\' :: (param.toList ++ '.' :: (body.chars ++ rest)) := by simp [chars]
  rw [htext]
  exact .abstraction hbinds hbody.of_atoms hstops

private theorem derives_parentheses (h : Derives .atoms n (t.chars ++ ')' :: rest) t (')' :: rest)) :
    Derives .atom (n + 1) ('(' :: (t.chars ++ [')']) ++ rest) t rest := by
  have htext : '(' :: (t.chars ++ [')']) ++ rest = '(' :: (t.chars ++ ')' :: rest) := by simp
  rw [htext]
  exact .group h.of_atoms

/-- A closing parenthesis ends any term. -/
theorem ends_closing (t : Term) (rest : List Char) : t.Ends (')' :: rest) := by
  have hclosing : isWordChar ')' = false := by decide
  simp [Ends, Stops, hclosing]

/-- A term that is applied is printed between parentheses if it is an abstraction. -/
theorem derives_function (h : ∀ rest, t.Ends rest → ∃ n < t.depth, Derives .atoms n (t.chars ++ rest) t rest)
    (rest : List Char) : ∃ n ≤ t.depth, Derives .atoms n
      ((if t.isAbstraction then '(' :: (t.chars ++ [')']) else t.chars) ++ ' ' :: rest) t (' ' :: rest) := by
  split
  · obtain ⟨n, hn, h⟩ := h _ (ends_closing t (' ' :: rest))
    exact ⟨n + 1, hn, .of_atom (derives_parentheses h)⟩
  · next hbare =>
    have hblank : isWordChar ' ' = false := by decide
    obtain ⟨n, hn, h⟩ := h (' ' :: rest) ⟨by simp [hblank], fun h => absurd h hbare⟩
    exact ⟨n, Nat.le_of_lt hn, h⟩

/-- An argument is printed between parentheses unless it is a variable. -/
theorem derives_argument (ht : t.Spelled)
    (h : ∀ rest, t.Ends rest → ∃ n < t.depth, Derives .atoms n (t.chars ++ rest) t rest)
    (hrest : ∀ c ∈ rest.head?, isWordChar c = false) : ∃ n ≤ t.depth, Derives .atom n
      ((if t.isVariable then t.chars else '(' :: (t.chars ++ [')'])) ++ rest) t rest := by
  split
  · next hvariable =>
    cases t with
    | var name => exact ⟨0, Nat.zero_le _, derives_var ht hrest⟩
    | app => cases hvariable
    | abs => cases hvariable
  · obtain ⟨n, hn, h⟩ := h _ (ends_closing t rest)
    exact ⟨n + 1, hn, derives_parentheses h⟩

/-- A printed term is derived with fewer expressions inside each other than it has levels. -/
theorem derives_chars (ht : t.Spelled) (hdots : ∀ x ∈ t.params, '.' ∉ x.toList) (hrest : t.Ends rest) :
    ∃ n < t.depth, Derives .atoms n (t.chars ++ rest) t rest := by
  induction t generalizing rest with
  | var name => exact ⟨0, Nat.one_pos, .of_atom (derives_var ht hrest.1)⟩
  | app f t ihf iht =>
    obtain ⟨hf, ht⟩ := ht
    have hfdots (x : String) (hx : x ∈ f.params) : '.' ∉ x.toList := hdots x (List.mem_append_left _ hx)
    have htdots (x : String) (hx : x ∈ t.params) : '.' ∉ x.toList := hdots x (List.mem_append_right _ hx)
    obtain ⟨n, hn, hargument⟩ := derives_argument ht (fun _ => iht ht htdots) hrest.1
    obtain ⟨m, hm, hfunction⟩ := derives_function (fun _ => ihf hf hfdots) _
    have hblank : AreBlanks [' '] := AreBlanks.nil.snoc (show Text.isBlank ' ' = true by decide)
    refine ⟨max m n, by rw [depth]; omega, ?_⟩
    rw [chars_app, List.append_assoc, List.cons_append]
    exact .apply hfunction hblank hargument
  | abs param body ih =>
    obtain ⟨hparam, hbody⟩ := ht
    have hstops := hrest.2 rfl
    obtain ⟨n, hn, h⟩ := ih hbody (fun x hx => hdots x (List.mem_cons_of_mem _ hx))
      ⟨hrest.1, fun _ => hstops⟩
    exact ⟨n + 1, Nat.succ_lt_succ hn,
      .of_atom (derives_abs hparam (hdots param List.mem_cons_self) h hstops)⟩

private theorem AreBlanks.count_dot {blanks : List Char} (h : AreBlanks blanks) : blanks.count '.' = 0 := by
  have hdot : Text.isBlank '.' = false := by decide
  refine List.count_eq_zero.mpr fun hmem => ?_
  rw [h '.' hmem] at hdot
  cases hdot

private theorem count_dot_chars_app (f t : Term) :
    (Term.app f t).chars.count '.' = f.chars.count '.' + t.chars.count '.' := by
  rw [chars_app, List.count_append, List.count_cons]
  congr 1
  · split <;> simp
  · split <;> simp

private theorem count_dot_chars_abs (param : String) (body : Term) :
    (Term.abs param body).chars.count '.' = param.toList.count '.' + (body.chars.count '.' + 1) := by
  simp [chars]

/-- A text that a term is derived from has as many dots as its written form, but for one less at each at
sign. If it has as many there is no at sign, and only behind one can a parameter have a dot. -/
theorem Derives.count_dot (h : Derives symbol n text t rest) :
    ∃ k, text.count '.' + k = rest.count '.' + t.chars.count '.' ∧
      (k = 0 → ∀ x ∈ t.params, '.' ∉ x.toList) := by
  induction h with
  | first hblanks _ ih =>
    rw [List.count_append, hblanks.count_dot, Nat.zero_add]
    exact ih
  | apply _ hblanks _ ihf iht =>
    obtain ⟨k, hk, hf⟩ := ihf
    obtain ⟨l, hl, ht⟩ := iht
    rw [List.count_append, hblanks.count_dot] at hk
    refine ⟨k + l, by rw [count_dot_chars_app]; omega, fun hzero x hx => ?_⟩
    rcases List.mem_append.mp hx with hx | hx
    · exact hf (by omega) x hx
    · exact ht (by omega) x hx
  | expression _ hblanks ih =>
    rw [List.count_append, hblanks.count_dot, Nat.zero_add] at ih
    exact ih
  | group _ ih =>
    rw [List.count_cons_of_ne (by decide)] at ih ⊢
    exact ih
  | abstraction hparam _ _ ih =>
    obtain ⟨k, hk, hbody⟩ := ih
    cases hparam with
    | @dotted sign param inner hsign hword =>
      have hdot : '.' ∉ param := fun h => by simpa [isParamChar] using hword.all '.' h
      have hne : sign ≠ '.' := by rcases hsign with rfl | rfl <;> decide
      refine ⟨k, ?_, fun hzero x hx => ?_⟩
      · rw [count_dot_chars_abs, String.toList_ofList, List.count_cons_of_ne hne, List.count_append,
          List.count_cons_self]
        omega
      · rcases List.mem_cons.mp hx with rfl | hx
        · rwa [String.toList_ofList]
        · exact hbody hzero x hx
    | @bare param inner hword =>
      refine ⟨k + 1, ?_, fun hzero => absurd hzero (Nat.succ_ne_zero k)⟩
      rw [count_dot_chars_abs, String.toList_ofList, List.count_cons_of_ne (by decide), List.count_append]
      omega
  | word =>
    refine ⟨0, ?_, by simp [params]⟩
    rw [chars, String.toList_ofList, List.count_append, Nat.add_comm, Nat.zero_add, Nat.add_comm]

/-- A term that was read is read again from its written form exactly if no parameter has a dot in it. -/
theorem parse_toString_iff {text : String} (h : parse text = .ok t) :
    parse t.toString = .ok t ↔ ∀ x ∈ t.params, '.' ∉ x.toList := by
  obtain ⟨_, hderives, -, hdepth⟩ := derives_of_parse h
  have hchars : t.toString.toList = t.chars := String.toList_ofList
  constructor
  · intro hagain
    obtain ⟨_, hprinted, -, -⟩ := derives_of_parse hagain
    obtain ⟨k, hcount, hdots⟩ := hprinted.count_dot
    rw [hchars, List.count_nil] at hcount
    exact hdots (by omega)
  · intro hdots
    have hends : t.Ends [] := ⟨by simp, fun _ => by simp [Stops]⟩
    obtain ⟨n, hn, hprinted⟩ := derives_chars hderives.spelled hdots hends
    have hexpression : Derives .expression (n + 1) t.toString.toList t [] := by
      rw [hchars, ← List.append_nil t.chars]
      exact .expression hprinted .nil
    rw [parse_of_derives hexpression, if_pos ⟨by omega, hdepth⟩]

/-- The three forms of binders around each other. -/
theorem parse_toString_iff_binders :
    ∃ t, parse "(λf.@x \\y.f (x y)) /data.csv" = .ok t ∧ parse t.toString = .ok t := by
  have h : parse "(λf.@x \\y.f (x y)) /data.csv" =
      .ok (.app (.abs "f" (.abs "x" (.abs "y" (.app (.var "f") (.app (.var "x") (.var "y"))))))
        (.var "/data.csv")) := by decide +kernel
  exact ⟨_, h, (parse_toString_iff h).mpr (by decide)⟩

/-- A parameter that has a dot is cut short there when it is read again, and the rest of it goes to the
body. -/
theorem parse_toString_dotted :
    parse "@a.b c" = .ok (.abs "a.b" (.var "c")) ∧
      (Term.abs "a.b" (.var "c")).toString = "\\a.b.c" ∧
      parse "\\a.b.c" = .ok (.abs "a" (.var "b.c")) ∧ Term.abs "a" (.var "b.c") ≠ .abs "a.b" (.var "c") :=
  ⟨by decide +kernel, by decide +kernel, by decide +kernel, by decide⟩

end NamedFunctions.Term

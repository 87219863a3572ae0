import NamedFunctions.Proofs.Term.Grammar

/-!
# Reading by the grammar

The reader of terms accepts the texts that are derived from an expression and are not too deep, and gives
the term that the derivation spells. What a derivation takes of a text is read whatever is open around it;
conversely whatever is open was derived as far as it has been read.
-/

namespace NamedFunctions.Term

variable {text inner start rest cs : List Char} {frames frames' : List Frame} {before : Option Measured}
  {f m m' : Measured} {param : String} {n nesting offset : Nat} {t : Term} {symbol : Symbol}

/-- A term that is read inside so many expressions, unless they or its levels are too many. -/
def bounded (nesting : Nat) (t : Term) : Except ParseError Measured :=
  if nesting ≤ maxDepth ∧ t.depth ≤ maxDepth then .ok ⟨t, t.depth⟩ else .error .tooDeep

private theorem bounded_of_le (nesting : Nat) (t : Term) (hnesting : nesting ≤ maxDepth)
    (ht : t.depth ≤ maxDepth) : bounded nesting t = .ok ⟨t, t.depth⟩ := if_pos ⟨hnesting, ht⟩

private theorem bounded_of_lt (nesting : Nat) (t : Term) (h : maxDepth < nesting ∨ maxDepth < t.depth) :
    bounded nesting t = .error .tooDeep := if_neg (by omega)

private theorem measured_of_le {levels : Nat} (h : levels ≤ maxDepth) : measured t levels = .ok ⟨t, levels⟩ :=
  if_neg (Nat.not_lt.mpr h)

private theorem measured_of_lt {levels : Nat} (h : maxDepth < levels) : measured t levels = .error .tooDeep :=
  if_pos h

/-- Read on with one more term behind those applied so far. -/
def continueWith (frames : List Frame) (before : Option Measured) (rest : List Char) (offset : Nat)
    (m : Measured) : Except ParseError Term :=
  (applyTo before m).bind fun f => parseTokens frames (some f) (scan offset rest)

private theorem bounded_bind_abs (nesting : Nat) (param : String) (t : Term)
    (k : Measured → Except ParseError Term) :
    ((bounded nesting t).bind fun m => (measured (.abs param m.term) (m.levels + 1)).bind k) =
      (bounded nesting (.abs param t)).bind k := by
  have hlevels : (Term.abs param t).depth = t.depth + 1 := rfl
  by_cases hdeep : maxDepth < nesting ∨ maxDepth < t.depth
  · rw [bounded_of_lt nesting t hdeep, bounded_of_lt nesting (.abs param t) (by omega)]
    rfl
  · rw [bounded_of_le nesting t (by omega) (by omega)]
    change (measured (.abs param t) (t.depth + 1)).bind k = _
    by_cases habs : t.depth + 1 ≤ maxDepth
    · rw [measured_of_le habs, bounded_of_le nesting (.abs param t) (by omega) habs]
      rfl
    · rw [measured_of_lt (by omega), bounded_of_lt nesting (.abs param t) (by omega)]

private theorem bounded_bind_app (outer m n : Nat) (f t : Term) (k : Measured → Except ParseError Term) :
    ((bounded (outer + m) f).bind fun f =>
        (bounded (outer + n) t).bind fun t => (applyTo (some f) t).bind k) =
      (bounded (outer + max m n) (.app f t)).bind k := by
  have hlevels : (Term.app f t).depth = max f.depth t.depth + 1 := rfl
  by_cases hf : maxDepth < outer + m ∨ maxDepth < f.depth
  · rw [bounded_of_lt (outer + m) f hf, bounded_of_lt (outer + max m n) (.app f t) (by omega)]
    rfl
  · rw [bounded_of_le (outer + m) f (by omega) (by omega)]
    by_cases ht : maxDepth < outer + n ∨ maxDepth < t.depth
    · rw [bounded_of_lt (outer + n) t ht, bounded_of_lt (outer + max m n) (.app f t) (by omega)]
      rfl
    · rw [bounded_of_le (outer + n) t (by omega) (by omega)]
      change (measured (.app f t) (max f.depth t.depth + 1)).bind k = _
      by_cases happ : max f.depth t.depth + 1 ≤ maxDepth
      · rw [measured_of_le happ, bounded_of_le (outer + max m n) (.app f t) (by omega) happ]
        rfl
      · rw [measured_of_lt (by omega), bounded_of_lt (outer + max m n) (.app f t) (by omega)]

private theorem closeBinders_binder (frames : List Frame) (before : Option Measured) (param : String)
    (body : Measured) : closeBinders (.binder param before :: frames) body =
      (measured (.abs param body.term) (body.levels + 1)).bind fun abstraction =>
        (applyTo before abstraction).bind (closeBinders frames) := by
  rw [closeBinders]
  cases measured (.abs param body.term) (body.levels + 1) with
  | error => rfl
  | ok abstraction =>
    simp only [Except.bind]
    cases applyTo before abstraction <;> rfl

/-- A parenthesis or the end of the text closes the innermost binder. -/
theorem parseTokens_binder (hstops : Stops rest) (frames : List Frame) (before : Option Measured)
    (param : String) (body : Measured) (offset : Nat) :
    parseTokens (.binder param before :: frames) (some body) (scan offset rest) =
      (measured (.abs param body.term) (body.levels + 1)).bind
        (continueWith frames before rest offset) := by
  have hscan : (∃ offset', scan offset rest = .done offset') ∨
      ∃ offset' tokens, scan offset rest = .token .closing offset' tokens := by
    cases rest with
    | nil => exact .inl ⟨offset, by rw [scan]⟩
    | cons c cs =>
      obtain rfl := hstops c rfl
      obtain ⟨offset', h⟩ := scan_closing offset cs
      exact .inr ⟨offset, _, h⟩
  unfold continueWith
  rcases hscan with ⟨offset', h⟩ | ⟨offset', tokens, h⟩
  all_goals
    simp only [h, parseTokens, closeBinders_binder]
    cases measured (.abs param body.term) (body.levels + 1) with
    | error => rfl
    | ok abstraction =>
      simp only [Except.bind]
      cases applyTo before abstraction <;> rfl

/-- A closing parenthesis ends what stands between it and the innermost one that is open. -/
theorem parseTokens_group (frames : List Frame) (before : Option Measured) (m : Measured)
    (offset : Nat) (rest : Tokens) :
    parseTokens (.group before :: frames) (some m) (.token .closing offset rest) =
      (applyTo before m).bind fun f => parseTokens frames (some f) rest := by
  simp only [parseTokens, closeBinders]
  cases applyTo before m <;> rfl

/-- What is derived from a symbol is read as the term that it spells, whatever is open around it. -/
def IsRead : Symbol → Nat → List Char → Term → List Char → Prop
  | .expression, n, text, t, rest => ∀ offset, ∃ offset', ∀ frames : List Frame,
    frames.length < maxDepth → parseTokens frames none (scan offset text) =
      (bounded (frames.length + n) t).bind (continueWith frames none rest offset')
  | .atoms, n, text, t, rest => ∀ offset, ∃ offset', ∀ frames : List Frame,
    frames.length < maxDepth → parseTokens frames none (scan offset text) =
      (bounded (frames.length + 1 + n) t).bind (continueWith frames none rest offset')
  | .atom, n, text, t, rest => ∀ offset, ∃ offset', ∀ (frames : List Frame) before,
    frames.length < maxDepth → parseTokens frames before (scan offset text) =
      (bounded (frames.length + 1 + n) t).bind (continueWith frames before rest offset')

private theorem Derives.isRead (h : Derives symbol n text t rest) : IsRead symbol n text t rest := by
  induction h with
  | first hblanks _ ih =>
    intro offset
    obtain ⟨offset₁, hscan⟩ := scan_blanks hblanks offset _
    obtain ⟨offset₂, ht⟩ := ih offset₁
    rw [hscan]
    exact ⟨offset₂, fun frames hframes => ht frames none hframes⟩
  | @apply m n blanks text middle rest f t _ hblanks _ ihf iht =>
    intro offset
    obtain ⟨offset₁, hf⟩ := ihf offset
    obtain ⟨offset₂, hscan⟩ := scan_blanks hblanks offset₁ middle
    obtain ⟨offset₃, ht⟩ := iht offset₂
    refine ⟨offset₃, fun frames hframes => ?_⟩
    rw [hf frames hframes, ← bounded_bind_app]
    congr 1
    funext f
    change parseTokens frames (some f) (scan offset₁ (blanks ++ middle)) = _
    rw [hscan, ht frames (some f) hframes]
    rfl
  | @expression n blanks text rest t _ hblanks ih =>
    intro offset
    obtain ⟨offset₁, hread⟩ := ih offset
    obtain ⟨offset₂, hscan⟩ := scan_blanks hblanks offset₁ rest
    refine ⟨offset₂, fun frames hframes => ?_⟩
    rw [hread frames hframes, Nat.add_right_comm, Nat.add_assoc]
    unfold continueWith
    rw [hscan]
  | @group n text rest t h ih =>
    intro offset
    have hpos := h.pos
    obtain ⟨offset₁, hopening⟩ := scan_opening offset text
    obtain ⟨offset₂, hread⟩ := ih offset₁
    obtain ⟨offset₃, hclosing⟩ := scan_closing offset₂ rest
    refine ⟨offset₃, fun frames before hframes => ?_⟩
    rw [hopening, parseTokens]
    split
    · rw [bounded_of_lt (frames.length + 1 + n) t (by omega)]
      rfl
    · rw [hread (.group before :: frames) (by rw [List.length_cons]; omega)]
      congr 1
      funext m
      change parseTokens (.group before :: frames) (some m) (scan offset₂ (')' :: rest)) = _
      rw [hclosing]
      exact parseTokens_group frames before m offset₂ _
  | @abstraction n text inner rest param t hparam h hstops ih =>
    intro offset
    have hpos := h.pos
    obtain ⟨offset₁, hscan⟩ := hparam.scan_eq offset
    obtain ⟨offset₂, hread⟩ := ih offset₁
    refine ⟨offset₂, fun frames before hframes => ?_⟩
    rw [hscan, parseTokens]
    split
    · rw [bounded_of_lt (frames.length + 1 + n) (.abs param t) (by omega)]
      rfl
    · rw [hread (.binder param before :: frames) (by rw [List.length_cons]; omega), ← bounded_bind_abs]
      congr 1
      funext body
      exact parseTokens_binder hstops frames before param body offset₂
  | @word word rest hword hname =>
    intro offset
    obtain ⟨offset₁, hscan⟩ := scan_word hword hname offset
    refine ⟨offset₁, fun frames before hframes => ?_⟩
    have hlevel : (Term.var (String.ofList word)).depth ≤ maxDepth := by
      rw [depth]
      decide
    rw [hscan, parseTokens, bounded_of_le (frames.length + 1 + 0) (.var (String.ofList word)) hframes hlevel]
    change _ = (applyTo before _).bind _
    split
    · next h => rw [depth, h]; rfl
    · next h => rw [depth, h]; rfl

/-- A derived text is read as the term that it spells, unless that is refused as too deep. -/
theorem parse_of_derives {text : String} (h : Derives .expression n text.toList t []) :
    parse text = if n ≤ maxDepth ∧ t.depth ≤ maxDepth then .ok t else .error .tooDeep := by
  obtain ⟨offset, hread⟩ := h.isRead 0
  rw [parse, hread [] (by decide), List.length_nil, Nat.zero_add, bounded]
  split
  · simp only [Except.bind, continueWith, applyTo, scan, parseTokens, closeBinders]
  · rfl

/-- A term has the number of levels that is noted with it, and they are not too many. -/
structure Measured.IsExact (m : Measured) : Prop where
  levels_eq : m.levels = m.term.depth
  levels_le : m.levels ≤ maxDepth

/-- The expression of some text, with so many open around it, goes on at a rest behind the terms that are
applied so far. -/
inductive Applied (outer : Nat) (start : List Char) : Option Measured → List Char → Prop where
  | nothing {blanks rest : List Char} (hstart : start = blanks ++ rest) (hblanks : AreBlanks blanks) :
      Applied outer start none rest
  | terms {n : Nat} {f : Measured} {blanks rest : List Char}
      (h : Derives .atoms n start f.term (blanks ++ rest)) (hblanks : AreBlanks blanks)
      (hf : f.IsExact) (hnesting : outer + 1 + n ≤ maxDepth) : Applied outer start (some f) rest

/-- What a text has opened before the text of the innermost expression. -/
inductive Opened (text : List Char) : List Frame → List Char → Prop where
  | root : Opened text [] text
  | group {frames : List Frame} {before : Option Measured} {start inner : List Char}
      (h : Opened text frames start) (hbefore : Applied frames.length start before ('(' :: inner))
      (hnesting : frames.length + 2 ≤ maxDepth) : Opened text (.group before :: frames) inner
  | binder {frames : List Frame} {before : Option Measured} {param : String}
      {start binder inner : List Char} (h : Opened text frames start)
      (hbefore : Applied frames.length start before binder) (hbinder : Binds binder param inner)
      (hnesting : frames.length + 2 ≤ maxDepth) : Opened text (.binder param before :: frames) inner

private theorem Opened.length_lt (h : Opened text frames start) : frames.length < maxDepth := by
  cases h with
  | root => decide
  | group _ _ hnesting | binder _ _ _ hnesting => exact hnesting

private theorem Applied.blank {outer : Nat} {c : Char} (h : Applied outer start before (c :: rest))
    (hc : Text.isBlank c = true) : Applied outer start before rest := by
  cases h with
  | @nothing blanks _ hstart hblanks =>
    exact .nothing (by rw [hstart, List.append_assoc]; rfl) (hblanks.snoc hc)
  | @terms n f blanks _ h hblanks hf hnesting =>
    exact .terms (by rw [List.append_assoc]; exact h) (hblanks.snoc hc) hf hnesting

private theorem eq_of_measured {levels : Nat} (h : measured t levels = .ok m) :
    m = ⟨t, levels⟩ ∧ levels ≤ maxDepth := by
  unfold measured at h
  split at h
  · cases h
  · cases h
    exact ⟨rfl, by omega⟩

private theorem Measured.IsExact.abs (hm : m.IsExact)
    (h : measured (.abs param m.term) (m.levels + 1) = .ok f) :
    f.term = .abs param m.term ∧ f.IsExact := by
  obtain ⟨rfl, hle⟩ := eq_of_measured h
  refine ⟨rfl, ?_, hle⟩
  change m.levels + 1 = m.term.depth + 1
  rw [hm.levels_eq]

private theorem Measured.IsExact.app {g : Measured} (hg : g.IsExact) (hm : m.IsExact)
    (h : applyTo (some g) m = .ok f) : f.term = .app g.term m.term ∧ f.IsExact := by
  obtain ⟨rfl, hle⟩ := eq_of_measured h
  refine ⟨rfl, ?_, hle⟩
  change max g.levels m.levels + 1 = max g.term.depth m.term.depth + 1
  rw [hg.levels_eq, hm.levels_eq]

/-- The terms in front of an atom that is read are applied to it. -/
theorem Applied.atom {outer : Nat} {middle : List Char} (h : Applied outer start before middle)
    (hderives : Derives .atom n middle m.term rest) (hm : m.IsExact) (hnesting : outer + 1 + n ≤ maxDepth)
    (happly : applyTo before m = .ok f) : Applied outer start (some f) rest := by
  cases h with
  | nothing hstart hblanks =>
    cases happly
    have hatoms : Derives .atoms n start f.term ([] ++ rest) := hstart ▸ .first hblanks hderives
    exact .terms hatoms .nil hm hnesting
  | @terms k g blanks _ hatoms hblanks hg hgnesting =>
    obtain ⟨hterm, hf⟩ := hg.app hm happly
    have hatoms' : Derives .atoms (max k n) start f.term ([] ++ rest) :=
      hterm ▸ .apply hatoms hblanks hderives
    exact .terms hatoms' .nil hf (by omega)

/-- An expression that is read up to where it stops was derived. -/
theorem Applied.expression {outer : Nat} (h : Applied outer start (some m) rest) :
    ∃ n, Derives .expression n start m.term rest ∧ m.IsExact ∧ outer + n ≤ maxDepth := by
  cases h with
  | @terms n _ blanks _ hatoms hblanks hm hnesting =>
    exact ⟨n + 1, .expression hatoms hblanks, hm, by omega⟩

/-- The binders that are closed where an expression stops were derived with their bodies. -/
theorem Opened.close (hopened : Opened text frames start)
    (hm : Applied frames.length start (some m) rest) (hstops : Stops rest)
    (h : closeBinders frames m = .ok (frames', m')) :
    ∃ start', Opened text frames' start' ∧ Applied frames'.length start' (some m') rest := by
  induction hopened generalizing m with
  | root =>
    cases h
    exact ⟨_, .root, hm⟩
  | group hopened hbefore hnesting =>
    cases h
    exact ⟨_, .group hopened hbefore hnesting, hm⟩
  | @binder frames before param start binder inner hopened hbefore hbinder _ ih =>
    obtain ⟨n, hbody, hexact, hnesting⟩ := hm.expression
    rw [List.length_cons] at hnesting
    rw [closeBinders] at h
    split at h
    · cases h
    · next abstraction habs =>
      obtain ⟨hterm, habstraction⟩ := hexact.abs habs
      have hatom : Derives .atom n binder abstraction.term rest :=
        hterm ▸ .abstraction hbinder hbody hstops
      split at h
      · cases h
      · next f happly => exact ih (hbefore.atom hatom habstraction (by omega) happly) h

/-- What is read in the end was derived from the whole text. -/
theorem derives_of_parseTokens {scanned : List Char} {tokens : Tokens} (hscan : Scanned scanned cs tokens)
    (h : parseTokens frames before tokens = .ok t) (hopened : Opened text frames start)
    (hbefore : Applied frames.length start before cs) :
    ∃ n, Derives .expression n text t [] ∧ n ≤ maxDepth ∧ t.depth ≤ maxDepth := by
  induction hscan generalizing frames before start with
  | done =>
    cases before with
    | none =>
      rw [parseTokens] at h
      cases h
    | some m =>
      rw [parseTokens] at h
      split at h
      · cases h
      · next m' hclose =>
        cases h
        obtain ⟨start', hopened', hm'⟩ := hopened.close hbefore (by simp [Stops]) hclose
        cases hopened'
        obtain ⟨n, hderives, hexact, hnesting⟩ := hm'.expression
        rw [List.length_nil, Nat.zero_add] at hnesting
        exact ⟨n, hderives, hnesting, hexact.levels_eq ▸ hexact.levels_le⟩
      · cases h
  | fault =>
    rw [parseTokens] at h
    cases h
  | blank hc _ ih => exact ih h hopened (hbefore.blank hc)
  | opening _ ih =>
    rw [parseTokens] at h
    split at h
    · cases h
    · next hnesting =>
      exact ih h (.group hopened hbefore (Nat.le_of_not_lt hnesting)) (.nothing rfl .nil)
  | closing _ ih =>
    cases before with
    | none =>
      rw [parseTokens] at h
      cases h
    | some m =>
      rw [parseTokens] at h
      split at h
      · cases h
      · next outer frames' m' hclose =>
        obtain ⟨start', hopened', hm'⟩ := hopened.close hbefore (by simp [Stops]) hclose
        cases hopened' with
        | group hopened' houter _ =>
          obtain ⟨n, hderives, hexact, hnesting⟩ := hm'.expression
          rw [List.length_cons] at hnesting
          split at h
          · cases h
          · next f happly =>
            exact ih h hopened' (houter.atom (.group hderives) hexact (by omega) happly)
      · cases h
  | binder _ hbinder _ ih =>
    rw [parseTokens] at h
    split at h
    · cases h
    · next hnesting =>
      exact ih h (.binder hopened hbefore hbinder (Nat.le_of_not_lt hnesting)) (.nothing rfl .nil)
  | @word scanned text word rest tokens htext hword hname _ ih =>
    rw [parseTokens] at h
    split at h
    · cases h
    · next f happly =>
      have hatom : Derives .atom 0 text (.var (String.ofList word)) rest := htext ▸ .word hword hname
      have hlevel : 1 ≤ maxDepth := by decide
      exact ih h hopened (hbefore.atom hatom ⟨rfl, hlevel⟩ hopened.length_lt happly)

/-- A text that is accepted is derived, within the bounds. -/
theorem derives_of_parse {text : String} (h : parse text = .ok t) :
    ∃ n, Derives .expression n text.toList t [] ∧ n ≤ maxDepth ∧ t.depth ≤ maxDepth :=
  derives_of_parseTokens (scanned_scan [] text.toList) h .root (.nothing rfl .nil)

variable {error : ParseError}

private theorem measured_error {levels : Nat} (h : measured t levels = .error error) : error = .tooDeep := by
  unfold measured at h
  split at h <;> cases h
  rfl

private theorem applyTo_error (h : applyTo before m = .error error) : error = .tooDeep := by
  cases before with
  | none => cases h
  | some f => exact measured_error h

private theorem closeBinders_error (h : closeBinders frames m = .error error) : error = .tooDeep := by
  fun_induction closeBinders frames m with
  | case1 _ _ _ _ _ hmeasured =>
    cases h
    exact measured_error hmeasured
  | case2 _ _ _ _ _ _ _ happly =>
    cases h
    exact applyTo_error happly
  | case3 _ _ _ _ _ _ _ _ ih => exact ih h
  | case4 => cases h

private theorem pointsInto_of_tooDeep (h : error = .tooDeep) (text : List Char) : error.PointsInto text := by
  rw [h]
  simp [ParseError.PointsInto, ParseError.offset?]

/-- What an error points to is a place in the text. -/
theorem pointsInto_of_parseTokens {scanned : List Char} {tokens : Tokens}
    (hscan : Scanned scanned cs tokens) (h : parseTokens frames before tokens = .error error) :
    error.PointsInto (scanned ++ cs) := by
  induction hscan generalizing frames before with
  | done =>
    cases before with
    | none =>
      rw [parseTokens] at h
      cases h
      exact ParseError.pointsInto_of_offset? _ _ rfl
    | some m =>
      rw [parseTokens] at h
      split at h
      · next hclose =>
        cases h
        exact pointsInto_of_tooDeep (closeBinders_error hclose) _
      · cases h
      · cases h
        simp [ParseError.PointsInto, ParseError.offset?]
  | fault hplace =>
    rw [parseTokens] at h
    cases h
    exact hplace
  | blank _ _ ih =>
    have hplaces := ih h
    rwa [List.append_assoc] at hplaces
  | opening _ ih =>
    rw [parseTokens] at h
    split at h
    · cases h
      exact pointsInto_of_tooDeep rfl _
    · have hplaces := ih h
      rwa [List.append_assoc] at hplaces
  | closing _ ih =>
    cases before with
    | none =>
      rw [parseTokens] at h
      cases h
      exact ParseError.pointsInto_of_offset? _ _ rfl
    | some m =>
      rw [parseTokens] at h
      split at h
      · next hclose =>
        cases h
        exact pointsInto_of_tooDeep (closeBinders_error hclose) _
      · split at h
        · next happly =>
          cases h
          exact pointsInto_of_tooDeep (applyTo_error happly) _
        · have hplaces := ih h
          rwa [List.append_assoc] at hplaces
      · cases h
        exact ParseError.pointsInto_of_offset? _ _ rfl
  | binder htext _ _ ih =>
    rw [parseTokens] at h
    split at h
    · cases h
      exact pointsInto_of_tooDeep rfl _
    · have hplaces := ih h
      rwa [List.append_assoc, ← htext] at hplaces
  | word htext _ _ _ ih =>
    rw [parseTokens] at h
    split at h
    · next happly =>
      cases h
      exact pointsInto_of_tooDeep (applyTo_error happly) _
    · have hplaces := ih h
      rwa [List.append_assoc, ← htext] at hplaces

/-- The reader accepts the texts that are derived from an expression with no more than so many expressions
inside each other and a term of no more than so many levels, each as the only term that the text is derived
with. It refuses all others with an error, which points between two characters of the text if anywhere. An
expression that stops at a parenthesis or at the end of the text, as the body of a binder does, leaves no
more of the text than any other expression that can be derived from the same place. -/
theorem parse_eq_ok_iff_derives (text : String) :
    (∀ t, parse text = .ok t ↔
      ∃ n, Derives .expression n text.toList t [] ∧ n ≤ maxDepth ∧ t.depth ≤ maxDepth) ∧
    (∀ t, parse text = .ok t → ∀ n t', Derives .expression n text.toList t' [] → t' = t) ∧
    ((∀ n t, Derives .expression n text.toList t [] → maxDepth < n ∨ maxDepth < t.depth) →
      ∃ error, parse text = .error error ∧ error.PointsInto text.toList) ∧
    ∀ n cs t rest, Derives .expression n cs t rest → Stops rest →
      ∀ n' t' rest', Derives .expression n' cs t' rest' → rest <:+ rest' := by
  refine ⟨fun t => ⟨derives_of_parse, ?_⟩, ?_, ?_, fun n cs t rest h hstops n' t' rest' h' => ?_⟩
  · rintro ⟨n, h, hbounds⟩
    rw [parse_of_derives h, if_pos hbounds]
  · intro t hparse n t' h
    rw [parse_of_derives h] at hparse
    split at hparse
    · exact Except.ok.inj hparse
    · cases hparse
  · intro hnone
    cases hparse : parse text with
    | error error => exact ⟨error, rfl, pointsInto_of_parseTokens (scanned_scan [] text.toList) hparse⟩
    | ok t =>
      obtain ⟨n, h, hn, ht⟩ := derives_of_parse hparse
      have := hnone n t h
      omega
  · exact h.isSuffix_of_stops hstops h'

end NamedFunctions.Term

import NamedFunctions.Document.Relay

/-!
# What is read from documents

A property of all that a reader can return, whatever the fields are. It passes through the composition
of readers and through records.
-/

namespace NamedFunctions.Document

/-- Whether all that a reader can return has a property. -/
def Returns {α : Type} (p : α → Prop) (reader : RecordReader α) : Prop :=
  ∀ dialect fields a rest, reader dialect fields = some (a, rest) → p a

namespace Returns

variable {α β : Type} {p : α → Prop} {q : β → Prop}

/-- A reader of nothing returns what it is given. -/
theorem pure {a : α} (ha : p a) : Returns p (pure a) := by
  intro dialect fields a' rest h
  cases h
  exact ha

/-- What a reader returns may be used to read on. -/
theorem bind {reader : RecordReader β} {next : β → RecordReader α} (hreader : Returns q reader)
    (hnext : ∀ b, q b → Returns p (next b)) : Returns p (reader >>= next) := by
  intro dialect fields a rest h
  simp only [Bind.bind, ReaderT.bind, StateT.bind, Option.bind_eq_some_iff] at h
  obtain ⟨⟨b, fields'⟩, hb, ha⟩ := h
  exact hnext b (hreader _ _ _ _ hb) _ _ _ _ ha

/-- Nothing need be known of what comes first. -/
theorem after {reader : RecordReader β} {next : β → RecordReader α}
    (hnext : ∀ b, Returns p (next b)) : Returns p (reader >>= next) :=
  bind (q := fun _ => True) (fun _ _ _ _ _ => trivial) fun b _ => hnext b

/-- A field that may be missing is read, or has its default. -/
theorem fieldD [DocumentForm α] {key : String} {default : α} (hdefault : p default)
    (hread : ∀ dialect d a, ofDocument? dialect d = some a → p a) :
    Returns p (fieldD key default) := by
  intro dialect fields a rest h
  unfold Document.fieldD fieldOr at h
  split at h
  · obtain ⟨a', ha', heq⟩ := Option.map_eq_some_iff.mp h
    cases heq
    exact hread _ _ _ ha'
  · cases h
    exact hdefault

/-- What is read from a record is returned by its reader. -/
theorem readRecord {reader : RecordReader α} (h : Returns p reader) {dialect : Dialect}
    {d : Document} {a : α} (ha : readRecord reader dialect d = some a) : p a := by
  unfold Document.readRecord at ha
  split at ha
  · obtain ⟨⟨a', rest⟩, hread, rfl⟩ := Option.map_eq_some_iff.mp ha
    exact h _ _ _ _ hread
  · split at ha
    · next hread =>
      split at ha
      · cases ha
        exact h _ _ _ _ hread
      · cases ha
    · cases ha
  · cases ha

end Returns

/-- No document says that a face has the data in delivery. -/
theorem served_of_ofDocument? {dialect : Dialect} {d : Document} {flags : FaceFlags}
    (h : ofDocument? dialect d = some flags) : flags.served = false :=
  Returns.readRecord (p := fun flags : FaceFlags => flags.served = false)
    (.after fun _ => .after fun _ => .after fun _ => .pure rfl) h

end NamedFunctions.Document

import NamedFunctions.Packet.Matching

/-!
# Names that are exactly the same

Two names are exactly the same if suite, components and chunk are. Data under the very name that is asked
for, and Interests that ask for the same, need not be compared component by component.
-/

namespace NamedFunctions

/-- A name that is exactly the one asked for answers as far as the selectors do not ask for a longer one,
for a publisher, or for fresh data. -/
theorem Interest.satisfiedBy_of_exact {interest : Interest} {content : Content}
    (h : interest.name.agrees .exact content.name = true) (stale : Bool) :
    interest.satisfiedBy content stale =
      (interest.selectors.minSuffix.all (· ≤ 0) &&
        (interest.selectors.publisher.isNone || interest.selectors.publisher == content.publisher) &&
        !(stale && interest.selectors.mustBeFresh)) := by
  have hkey := Name.agrees_exact_iff.mp h
  simp only [Name.key, Prod.mk.injEq] at hkey
  obtain ⟨hsuite, hcomponents, hchunk⟩ := hkey
  have hnames : interest.name.agrees .request content.name = true := by
    simp [Name.agrees, Name.covers, hsuite, hcomponents, hchunk]
  have hmax : interest.selectors.maxSuffix.all (UInt32.ofNat 0 ≤ ·) = true := by
    cases interest.selectors.maxSuffix with
    | none => rfl
    | some bound => simp
  have hnext : content.name.components[interest.name.length]? = none := by
    simp [Name.length, hcomponents]
  have hlength : content.name.length - interest.name.length = 0 := by
    simp [Name.length, hcomponents]
  rw [satisfiedBy, hnames, Bool.true_and, Selectors.accept, hlength, hmax, hnext]
  simp

/-- Interests ask for the same if their names have one key and their selectors are the same. -/
theorem Interest.asksSame_iff {a b : Interest} :
    a.asksSame b = true ↔ a.name.key = b.name.key ∧ a.selectors = b.selectors := by
  rw [asksSame, Bool.and_eq_true, Name.agrees_exact_iff, beq_iff_eq]

/-- An Interest asks for the same as itself. -/
theorem Interest.asksSame_refl (a : Interest) : a.asksSame a = true := asksSame_iff.mpr ⟨rfl, rfl⟩

/-- Interests that ask for the same are asked for by the same Interests. -/
theorem Interest.asksSame_congr {a b : Interest} (h : a.asksSame b = true) (c : Interest) :
    c.asksSame a = c.asksSame b := by
  obtain ⟨hkey, hselectors⟩ := asksSame_iff.mp h
  rw [Bool.eq_iff_iff, asksSame_iff, asksSame_iff, hkey, hselectors]

/-- Interests that ask for the same are satisfied by the same data. -/
theorem Interest.satisfiedBy_of_asksSame {a b : Interest} (h : a.asksSame b = true)
    (content : Content) (stale : Bool) :
    a.satisfiedBy content stale = b.satisfiedBy content stale := by
  simp only [asksSame, Bool.and_eq_true, beq_iff_eq] at h
  obtain ⟨hname, hselectors⟩ := h
  have hkey := Name.agrees_exact_iff.mp hname
  simp only [Name.key, Prod.mk.injEq] at hkey
  obtain ⟨hsuite, hcomponents, hchunk⟩ := hkey
  simp only [satisfiedBy, Name.agrees, Name.covers, Name.length, hsuite, hcomponents, hchunk,
    hselectors]

end NamedFunctions

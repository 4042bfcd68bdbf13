import Stencil.Scan.Markers

/-! # Replacing markers

Markers are replaced from left to right by texts that a caller supplies, and everything between them
is kept. The caller is asked once for each marker, in order, as long as the markers fit the text and
no answer fails. A caller may keep a state from one answer to the next, also from one that fails.
-/

namespace Stencil

/-- Supplies the text that replaces a marker, or fails with an error of the caller's own. -/
abbrev Replacer (ε σ : Type) := Marker → ExceptT ε (StateM σ) Text

/-- Why a text with replaced markers could not be made. -/
inductive SpliceFailure (ε : Type) where
  | fault (fault : Fault)
  | refused (error : ε)
deriving DecidableEq, Repr

namespace Marker

/-- What stands before the marker in `ahead` and what stands behind it, where `ahead` starts at
`cursor`, if the marker's own text stands at its place. -/
def around? (marker : Marker) (cursor : Nat) (ahead : Text) : Option (Text × Text) := do
  let (between, rest) ← ahead.cut? (marker.position - cursor)
  let (found, behind) ← rest.cut? marker.length
  if found = marker.rawText then some (between, behind) else none

/-- What stands around the marker. That it starts too early is said first. -/
def carve (marker : Marker) (cursor : Nat) (ahead : Text) : Except Fault (Text × Text) :=
  if marker.position < cursor then .error (.unspliceable marker.position .outOfOrder)
  else
    match marker.around? cursor ahead with
    | some (between, behind) => .ok (between, behind)
    | none => .error (.unspliceable marker.position .mismatch)

theorem around?_eq_some_iff {marker : Marker} {cursor : Nat} {ahead between behind : Text} :
    marker.around? cursor ahead = some (between, behind) ↔
      between.width = marker.position - cursor ∧ marker.rawText.width = marker.length ∧
        ahead = between ++ marker.rawText ++ behind := by
  simp only [around?, Option.bind_eq_bind, Option.bind_eq_some_iff, Prod.exists,
    Text.cut?_eq_some_iff, Option.ite_none_right_eq_some, Option.some.injEq, Prod.mk.injEq]
  constructor
  · rintro ⟨_, _, ⟨rfl, hb⟩, _, _, ⟨rfl, hf⟩, rfl, rfl, rfl⟩
    exact ⟨hb, hf, by simp⟩
  · rintro ⟨hb, hf, rfl⟩
    exact ⟨_, _, ⟨List.append_assoc .., hb⟩, _, _, ⟨rfl, hf⟩, rfl, rfl, rfl⟩

theorem carve_eq_ok_iff {marker : Marker} {cursor : Nat} {ahead between behind : Text} :
    marker.carve cursor ahead = .ok (between, behind) ↔
      marker.position = cursor + between.width ∧ marker.rawText.width = marker.length ∧
        ahead = between ++ marker.rawText ++ behind := by
  rw [carve]
  split
  · simp only [reduceCtorEq, false_iff]
    omega
  · have hposition : marker.position = cursor + between.width ↔
        between.width = marker.position - cursor := by omega
    rw [hposition, ← around?_eq_some_iff]
    split <;> simp_all

end Marker

variable {ε σ : Type}

def spliceFrom (replace : Replacer ε σ) (cursor : Nat) (ahead : Text) :
    List Marker → σ → Outcome (SpliceFailure ε) σ Text
  | [], state => { result := .ok ahead, state }
  | marker :: markers, state =>
    match marker.carve cursor ahead with
    | .error fault => { result := .error (.fault fault), state }
    | .ok (between, behind) =>
      match (replace marker).run.run state with
      | (.error e, state) => { result := .error (.refused e), state }
      | (.ok replacement, state) =>
        let rest := spliceFrom replace marker.stop behind markers state
        { rest with
          result := rest.result.map fun text => between ++ replacement ++ text
          events := .spliced marker.position marker.length replacement.width :: rest.events }

def splice (replace : Replacer ε σ) (text : Text) (markers : List Marker) (state : σ) :
    Outcome (SpliceFailure ε) σ Text :=
  spliceFrom replace 0 text markers state

/-- The text with every marker that it holds replaced. Nothing is asked of the caller unless the
whole text can be read. -/
def render (d : Delimiters) (replace : Replacer ε σ) (text : Text) (state : σ) :
    Outcome (SpliceFailure ε) σ Text :=
  let found := markersOf d text
  match found.result with
  | .error fault => { result := .error (.fault fault), state, events := found.events }
  | .ok markers =>
    let spliced := splice replace text markers state
    { spliced with events := found.events ++ spliced.events }

end Stencil

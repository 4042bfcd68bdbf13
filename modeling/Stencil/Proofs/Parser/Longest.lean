import Stencil.Proofs.Parser.Language

/-! # Longest phrases

A parser that a language describes stops as soon as the language lets it. If a phrase can be drawn
out wherever reading need not stop, stopping means that no phrase goes further, and the parser reads
the longest phrase that the text begins with.
-/

namespace Stencil

/-- The parser succeeds just if the text ahead begins with a phrase. It then takes the longest such
phrase and nothing behind it. -/
structure Parser.ReadsLongest {ρ β : Type} (p : Parser ρ β) (text : β → Text)
    (IsPhrase : Text → Prop) : Prop where
  isSome_iff : ∀ input, (p input).result.isSome ↔ ∃ t, IsPhrase t ∧ t <+: input.ahead
  longest : ∀ input b rest, (p input).result = some (b, rest) →
    IsPhrase (text b) ∧ input.Reaches (text b) rest ∧
      ∀ t, IsPhrase t → t <+: input.ahead → t <+: text b

namespace Language

variable {ρ α β : Type} (L : Language α β)

/-- If reading need not stop behind a phrase, a longer one begins there. -/
def Grows : Prop :=
  ∀ a rest, L.Valid a → ¬ L.Final rest → ∃ longer behind, L.Valid longer ∧
    L.text a ++ rest = L.text longer ++ behind ∧ behind.length < rest.length

variable {L} {p : Parser ρ β} {a a' : α} {rest rest' t : Text}

theorem Grows.exists_final (h : L.Grows) (ha : L.Valid a) (rest : Text) :
    ∃ longer behind, L.Valid longer ∧ L.text a ++ rest = L.text longer ++ behind ∧
      L.Final behind ∧ behind.length ≤ rest.length := by
  induction hlength : rest.length using Nat.strongRecOn generalizing a rest with
  | ind length ih =>
    by_cases hfinal : L.Final rest
    · exact ⟨a, rest, ha, rfl, hfinal, Nat.le_of_eq hlength⟩
    · obtain ⟨next, behind, hnext, htext, hshorter⟩ := h a rest ha hfinal
      rw [hlength] at hshorter
      obtain ⟨longer, last, hlonger, htext', hlast, hle⟩ := ih _ hshorter hnext behind rfl
      exact ⟨longer, last, hlonger, htext.trans htext', hlast, by omega⟩

theorem Grows.starts_iff (h : L.Grows) :
    L.Starts t ↔ ∃ a rest, L.Valid a ∧ t = L.text a ++ rest := by
  constructor
  · intro hstarts
    obtain ⟨a, rest, ha, ht, -⟩ := hstarts
    exact ⟨a, rest, ha, ht⟩
  · intro hbegins
    obtain ⟨a, rest, ha, rfl⟩ := hbegins
    obtain ⟨longer, behind, hlonger, htext, hfinal, -⟩ := h.exists_final ha rest
    exact ⟨longer, behind, hlonger, htext, hfinal⟩

theorem Describes.exists_result_iff (h : L.Describes p) (input : Input) (ha : L.Valid a)
    (hahead : input.ahead = L.text a ++ rest) :
    (∃ b, (p input).result = some (b, ⟨input.offset + (L.text a).width, rest⟩)) ↔ L.Final rest := by
  constructor
  · intro hread
    obtain ⟨b, hread⟩ := hread
    obtain ⟨_, -, -, -, hfinal⟩ := (h ..).1 hread
    exact hfinal
  · intro hfinal
    exact ⟨_, (h ..).2 ⟨a, ha, rfl, ⟨hahead, rfl⟩, hfinal⟩⟩

/-- A parser has one answer to a text, so all phrases that may end a text end at the same place. -/
theorem Describes.length_eq_of_final (h : L.Describes p) (ha : L.Valid a) (hrest : L.Final rest)
    (ha' : L.Valid a') (hrest' : L.Final rest') (htext : L.text a ++ rest = L.text a' ++ rest') :
    rest.length = rest'.length := by
  let input : Input := { ahead := L.text a ++ rest }
  obtain ⟨b, hread⟩ := (h.exists_result_iff input ha rfl).2 hrest
  obtain ⟨b', hread'⟩ := (h.exists_result_iff input ha' htext).2 hrest'
  rw [hread] at hread'
  simp only [Option.some.injEq, Prod.mk.injEq, Input.mk.injEq] at hread'
  rw [hread'.2.2]

/-- Where reading has to stop, no phrase goes further. -/
theorem Describes.length_le_of_final (h : L.Describes p) (hgrows : L.Grows) (ha : L.Valid a)
    (hrest : L.Final rest) (ha' : L.Valid a') (htext : L.text a ++ rest = L.text a' ++ rest') :
    (L.text a').length ≤ (L.text a).length := by
  obtain ⟨longer, behind, hlonger, hmore, hbehind, hle⟩ := hgrows.exists_final ha' rest'
  have hsame := h.length_eq_of_final ha hrest hlonger hbehind (htext.trans hmore)
  have hlength := congrArg List.length htext
  rw [List.length_append, List.length_append] at hlength
  omega

/-- Reading has to stop behind the longest phrase, and nowhere else. -/
theorem Describes.final_iff (h : L.Describes p) (hgrows : L.Grows) (ha : L.Valid a) :
    L.Final rest ↔ ∀ a' rest', L.Valid a' → L.text a ++ rest = L.text a' ++ rest' →
      (L.text a').length ≤ (L.text a).length := by
  constructor
  · exact fun hrest a' rest' ha' htext => h.length_le_of_final hgrows ha hrest ha' htext
  · intro hlongest
    by_cases hrest : L.Final rest
    · exact hrest
    · obtain ⟨longer, behind, hlonger, htext, hshorter⟩ := hgrows a rest ha hrest
      have hle := hlongest longer behind hlonger htext
      have hlength := congrArg List.length htext
      rw [List.length_append, List.length_append] at hlength
      omega

theorem Describes.readsLongest (h : L.Describes p) (hgrows : L.Grows) {text : β → Text}
    (htext : ∀ start a, text (L.place start a) = L.text a) {IsPhrase : Text → Prop}
    (hphrase : ∀ {t}, IsPhrase t ↔ ∃ a, L.Valid a ∧ L.text a = t) :
    p.ReadsLongest text IsPhrase := by
  constructor
  · intro input
    rw [h.isSome_result_iff, hgrows.starts_iff]
    constructor
    · intro hbegins
      obtain ⟨a, rest, ha, hahead⟩ := hbegins
      exact ⟨L.text a, hphrase.2 ⟨a, ha, rfl⟩, rest, hahead.symm⟩
    · intro hbegins
      obtain ⟨t, ht, rest, hahead⟩ := hbegins
      obtain ⟨a, ha, rfl⟩ := hphrase.1 ht
      exact ⟨a, rest, ha, hahead.symm⟩
  · intro input b rest hb
    obtain ⟨a, ha, rfl, hread, hfinal⟩ := (h input b rest).1 hb
    rw [htext]
    refine ⟨hphrase.2 ⟨a, ha, rfl⟩, hread, ?_⟩
    intro t ht hprefix
    obtain ⟨a', ha', rfl⟩ := hphrase.1 ht
    obtain ⟨rest', hahead⟩ := hprefix
    apply List.prefix_of_prefix_length_le ⟨rest', hahead⟩ ⟨rest.ahead, hread.ahead_eq.symm⟩
    exact h.length_le_of_final hgrows ha hfinal ha' (hread.ahead_eq.symm.trans hahead.symm)

end Language

end Stencil

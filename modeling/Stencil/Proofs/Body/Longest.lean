import Stencil.Proofs.Parser.Longest
import Stencil.Proofs.Body.Canonical

/-! # What the rules read from the start of a text

Read as a plain grammar, a rule allows a text or does not, and nothing is said of how it is read. A
reading that never reconsiders a choice loses nothing by that: it takes the longest text that the
rule allows, and fails only where there is none.
-/

namespace Stencil

/-- One or more pieces with the character between any two neighbours. -/
def IsSeparated (separator : Char) (IsPiece : Text → Prop) (t : Text) : Prop :=
  ∃ pieces : List Text, pieces ≠ [] ∧ (∀ piece ∈ pieces, IsPiece piece) ∧
    [separator].intercalate pieces = t

def IsCallText (t : Text) : Prop :=
  ∃ name arguments layout, IsName name ∧ IsSeparated ',' IsArgument arguments ∧ IsLayout layout ∧
    name ++ '(' :: arguments ++ ')' :: layout = t

theorem Row.text_concat (separator : Char) (first : Text) (init : List Text) (last : Text) :
    Row.text separator ⟨first, init ++ [last]⟩ =
      Row.text separator ⟨first, init⟩ ++ [separator] ++ last := by
  simp [text]

theorem isSeparated_iff {separator : Char} {IsPiece : Text → Prop} {t : Text} :
    IsSeparated separator IsPiece t ↔
      ∃ row : Row, (∀ piece ∈ row.toList, IsPiece piece) ∧ row.text separator = t := by
  constructor
  · intro h
    obtain ⟨pieces, hne, hpieces, rfl⟩ := h
    obtain ⟨first, others, rfl⟩ := List.exists_cons_of_ne_nil hne
    exact ⟨⟨first, others⟩, hpieces, Row.text_eq_intercalate separator _⟩
  · intro h
    obtain ⟨row, hrow, rfl⟩ := h
    exact ⟨row.toList, List.cons_ne_nil _ _, hrow, (row.text_eq_intercalate separator).symm⟩

theorem isCallText_iff {t : Text} :
    IsCallText t ↔ ∃ stage : Stage, stage.IsGrammatical ∧ stage.text = t := by
  constructor
  · intro h
    obtain ⟨name, arguments, layout, hname, harguments, hlayout, rfl⟩ := h
    obtain ⟨row, hrow, rfl⟩ := isSeparated_iff.1 harguments
    exact ⟨⟨name, row, layout⟩, ⟨hname, hrow, hlayout⟩, rfl⟩
  · intro h
    obtain ⟨stage, hstage, rfl⟩ := h
    exact ⟨stage.name, stage.arguments.text ',', stage.trailing, hstage.name,
      isSeparated_iff.2 ⟨_, hstage.arguments, rfl⟩, hstage.trailing, rfl⟩

namespace Grammar

section Grows

variable {Valid : Text → Prop} {extends? : Char → Bool} {separator : Char}

theorem grows_pieces (h : ∀ t c, Valid t → extends? c = true → Valid (t ++ [c])) :
    (pieces Valid extends?).Grows := by
  intro t rest ht hrest
  cases rest with
  | nil => exact absurd Text.stops_nil hrest
  | cons c rest =>
    have hc : extends? c = true := by simpa [pieces] using hrest
    exact ⟨t ++ [c], rest, h t c ht hc, by simp [pieces], Nat.lt_succ_self _⟩

theorem grows_names : names.Grows := by
  apply grows_pieces
  intro t c ht hc
  rw [isName_iff] at ht ⊢
  simp_all [or_imp]

theorem grows_arguments : arguments.Grows := by
  apply grows_pieces
  intro t c ht hc
  rw [isArgument_iff] at ht ⊢
  simp_all [or_imp]

/-- A row goes on in its last piece, or with a separator and one more piece. -/
theorem grows_rows (h : (pieces Valid extends?).Grows) :
    (rows (pieces Valid extends?) separator).Grows := by
  intro row rest hrow hrest
  obtain ⟨first, others⟩ := row
  have hfirst : Valid first := hrow first (by simp [Row.toList])
  have hothers : ∀ t ∈ others, Valid t := fun t ht => hrow t (List.mem_cons_of_mem first ht)
  by_cases hlast : (pieces Valid extends?).Final rest
  · obtain ⟨more, rfl, t, behind, ht, rfl, -⟩ : ∃ more, rest = separator :: more ∧
        (pieces Valid extends?).Starts more := by
      simpa [rows, Language.ListFinal, hlast] using hrest
    refine ⟨⟨first, others ++ [t]⟩, behind, ?_, ?_, ?_⟩
    · simpa [rows, Row.toList, or_imp, forall_and] using ⟨hfirst, hothers, ht⟩
    · simp [rows, Row.text, pieces]
    · rw [List.length_cons, List.length_append]
      omega
  · rcases List.eq_nil_or_concat others with rfl | ⟨init, last, rfl⟩
    · obtain ⟨longer, behind, hlonger, htext, hshorter⟩ := h first rest hfirst hlast
      refine ⟨⟨longer, []⟩, behind, ?_, ?_, hshorter⟩
      · simpa [rows, Row.toList] using hlonger
      · simpa [rows, Row.text, pieces] using htext
    · rw [List.concat_eq_append] at hothers ⊢
      obtain ⟨longer, behind, hlonger, htext, hshorter⟩ :=
        h last rest (hothers last (by simp)) hlast
      have hinit : ∀ t ∈ init, Valid t := fun t ht => hothers t (by simp [ht])
      refine ⟨⟨first, init ++ [longer]⟩, behind, ?_, ?_, hshorter⟩
      · simpa [rows, Row.toList, or_imp, forall_and] using ⟨hfirst, hinit, hlonger⟩
      · change Row.text .. ++ rest = Row.text .. ++ behind
        have htext : last ++ rest = longer ++ behind := htext
        simp only [Row.text_concat, List.append_assoc, htext]

theorem grows_stages : stages.Grows := by
  intro stage rest hstage hrest
  obtain ⟨name, row, trailing⟩ := stage
  cases rest with
  | nil => exact absurd Text.stops_nil hrest
  | cons c rest =>
    have hc : c.isWhitespace = true := by simpa [stages] using hrest
    refine ⟨⟨name, row, trailing ++ [c]⟩, rest, ⟨hstage.name, hstage.arguments, ?_⟩, ?_,
      Nat.lt_succ_self _⟩
    · have hlayout := isLayout_iff.1 hstage.trailing
      rw [isLayout_iff]
      simp_all [or_imp]
    · simp [stages, Stage.text]

end Grows

/-- A path may stop in front of a point just if no name stands behind the point. -/
theorem listFinal_point_iff {more : Text} :
    names.ListFinal '.' ('.' :: more) ↔ ¬ ∃ name, IsName name ∧ name <+: more := by
  have hstarts : names.Starts more ↔ ∃ name, IsName name ∧ name <+: more := by
    rw [grows_names.starts_iff]
    constructor
    · intro h
      obtain ⟨name, rest, hname, rfl⟩ := h
      exact ⟨name, hname, rest, rfl⟩
    · intro h
      obtain ⟨name, hname, rest, rfl⟩ := h
      exact ⟨name, rest, hname, rfl⟩
  rw [← hstarts]
  constructor
  · exact fun h => h.2 more rfl
  · intro h
    constructor
    · exact Text.stops_cons_iff.2 rfl
    · intro more' heq
      rwa [← (List.cons.inj heq).2]

/-- Three rules, each read from any place on. The rule succeeds just if some beginning of the text
ahead is allowed by its plain grammar, and it takes the longest such beginning. A point behind a
path is given back just if no name follows it. -/
theorem rules_read_longest :
    path.ReadsLongest Chain.text (IsSeparated '.' IsName) ∧
    argumentList.ReadsLongest Chain.text (IsSeparated ',' IsArgument) ∧
    call.ReadsLongest WrittenCall.text IsCallText ∧
    ∀ input names more, IsSeparated '.' IsName names → input.ahead = names ++ '.' :: more →
      ((∃ chain, (path input).result =
          some (chain, ⟨input.offset + names.width, '.' :: more⟩)) ↔
        ¬ ∃ name, IsName name ∧ name <+: more) := by
  constructor
  · exact describes_path.readsLongest (grows_rows grows_names) (Row.text_place '.') isSeparated_iff
  constructor
  · exact describes_argumentList.readsLongest (grows_rows grows_arguments) (Row.text_place ',')
      isSeparated_iff
  constructor
  · exact describes_call.readsLongest grows_stages Stage.text_place isCallText_iff
  · intro input t more ht hahead
    obtain ⟨row, hrow, rfl⟩ := isSeparated_iff.1 ht
    have hread := describes_path.exists_result_iff input hrow hahead
    exact hread.trans listFinal_point_iff

/-- A second point ends the path in front of it, and layout behind a call ends with the call. -/
theorem rules_read_longest_points :
    (∃ chain, (path { ahead := "a.b..c".toList }).result =
      some (chain, ⟨3, "..c".toList⟩)) ∧
    (argumentList { ahead := "x,)".toList }).result.isSome ∧
    (call { ahead := "f(x) \t y".toList }).result.isSome := by
  have hpath : IsSeparated '.' IsName "a.b".toList :=
    ⟨[['a'], ['b']], by decide, by decide, rfl⟩
  have harguments : IsSeparated ',' IsArgument "x".toList := ⟨[['x']], by decide, by decide, rfl⟩
  have hcall : IsCallText "f(x) \t ".toList :=
    ⟨['f'], ['x'], [' ', '\t', ' '], by decide, harguments, by decide, rfl⟩
  have hnone : ¬ ∃ name, IsName name ∧ name <+: ".c".toList := by
    intro h
    obtain ⟨name, hname, hprefix⟩ := h
    obtain ⟨c, name, rfl⟩ := List.exists_cons_of_ne_nil hname.1
    have hc : c = '.' := (List.cons_prefix_cons.1 hprefix).1
    exact hname.2 c (by simp) (by simp [hc])
  have hrules := rules_read_longest
  constructor
  · exact (hrules.2.2.2 { ahead := "a.b..c".toList } _ ".c".toList hpath rfl).2 hnone
  constructor
  · exact (hrules.2.1.isSome_iff _).2 ⟨_, harguments, [',', ')'], rfl⟩
  · exact (hrules.2.2.1.isSome_iff _).2 ⟨_, hcall, ['y'], rfl⟩

end Grammar

end Stencil

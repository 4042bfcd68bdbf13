import Stencil.Proofs.Body.Longest

/-! # What a text lacks to be a body

A text is read from left to right: the longest path, then calls as long as a colon announces one. If
it is no body, something is missing where this reading stops, and what it is and where depends on
the text alone.
-/

namespace Stencil

def BeginsName (text : Text) : Prop := ∃ name rest, IsName name ∧ text = name ++ rest

def BeginsStage (text : Text) : Prop :=
  ∃ (stage : Stage) (rest : Text), stage.IsGrammatical ∧ text = stage.text ++ rest

def Row.IsPathOf (text : Text) (row : Row) : Prop :=
  (∀ t ∈ row.toList, IsName t) ∧ ∃ rest, text = row.text '.' ++ rest

def Row.IsLongestPathOf (text : Text) (row : Row) : Prop :=
  row.IsPathOf text ∧
    ∀ other : Row, other.IsPathOf text → (other.text '.').length ≤ (row.text '.').length

/-- What is missing in a text that stands at `start` behind a path and some calls. -/
inductive MissingCall : Nat → Text → Nat → Rule → Prop where
  | atEnd {start : Nat} {rest : Text} : rest ≠ [] → rest.head? ≠ some ':' →
      MissingCall start rest start .endOfInput
  | name {start : Nat} {rest : Text} : ¬ BeginsName rest →
      MissingCall start (':' :: rest) (start + 1) .identifier
  /-- The call is to blame as a whole, wherever it breaks off. -/
  | call {start : Nat} {rest : Text} : BeginsName rest → ¬ BeginsStage rest →
      MissingCall start (':' :: rest) (start + 1) .call
  /-- Behind a whole call reading goes on, and the call takes all layout with it. -/
  | later {start : Nat} {stage : Stage} {rest : Text} {place : Nat} {rule : Rule} :
      stage.IsGrammatical → (∀ c ∈ rest.head?, ¬ IsLayout [c]) →
      MissingCall (start + 1 + stage.text.width) rest place rule →
      MissingCall start (':' :: (stage.text ++ rest)) place rule

/-- What is missing in a text that is no body, and the bytes in front of that place. -/
inductive Missing (text : Text) : Nat → Rule → Prop where
  | path : (∀ row : Row, ¬ row.IsPathOf text) → Missing text 0 .identifier
  /-- A point goes with the name that has to follow it. -/
  | segment {row : Row} {rest : Text} : row.IsLongestPathOf text →
      text = row.text '.' ++ '.' :: rest → Missing text ((row.text '.').width + 1) .identifier
  | behindPath {row : Row} {rest : Text} {place : Nat} {rule : Rule} :
      row.IsLongestPathOf text → text = row.text '.' ++ rest → rest.head? ≠ some '.' →
      MissingCall (row.text '.').width rest place rule → Missing text place rule

theorem MissingCall.start_le {start place : Nat} {text : Text} {rule : Rule}
    (h : MissingCall start text place rule) : start ≤ place := by
  induction h with
  | atEnd => exact Nat.le_refl _
  | name => exact Nat.le_succ _
  | call => exact Nat.le_succ _
  | later _ _ _ ih => omega

theorem MissingCall.rule_mem {start place : Nat} {text : Text} {rule : Rule}
    (h : MissingCall start text place rule) : rule ∈ [.identifier, .call, .endOfInput] := by
  induction h with
  | atEnd => simp
  | name => simp
  | call => simp
  | later _ _ _ ih => exact ih

theorem Missing.rule_mem {text : Text} {place : Nat} {rule : Rule} (h : Missing text place rule) :
    rule ∈ [.identifier, .call, .endOfInput] := by
  cases h with
  | path => simp
  | segment => simp
  | behindPath _ _ _ h => exact h.rule_mem

theorem beginsName_iff {text : Text} : BeginsName text ↔ Grammar.names.Starts text :=
  Grammar.grows_names.starts_iff.symm

theorem beginsStage_iff {text : Text} : BeginsStage text ↔ Grammar.stages.Starts text :=
  Grammar.grows_stages.starts_iff.symm

theorem forall_head?_iff_stops {text : Text} :
    (∀ c ∈ text.head?, ¬ IsLayout [c]) ↔ text.Stops Char.isWhitespace := by
  simp [Text.Stops, Grammar.isLayout_iff]

theorem BeginsName.append {text rest : Text} (h : BeginsName text) : BeginsName (text ++ rest) := by
  obtain ⟨name, behind, hname, rfl⟩ := h
  exact ⟨name, behind ++ rest, hname, List.append_assoc ..⟩

theorem Grammar.isSome_result_chain_iff {separator : Char} {p : Parser Rule Piece} {input : Input} :
    (chain separator p input).result.isSome ↔ (p input).result.isSome := by
  simp only [Option.isSome_iff_exists, Prod.exists]
  constructor
  · intro h
    obtain ⟨written, rest, h⟩ := h
    obtain ⟨first, mid, hfirst, -⟩ := Parser.result_bind_eq_some_iff.1 h
    exact ⟨first, mid, hfirst⟩
  · intro h
    obtain ⟨first, mid, hfirst⟩ := h
    obtain ⟨⟨others, rest⟩, hothers⟩ := Option.isSome_iff_exists.1
      (Parser.isSome_result_many (do let _ ← Parser.char separator; p) mid)
    refine ⟨⟨first, others⟩, rest, Parser.result_bind_eq_some_iff.2 ⟨first, mid, hfirst, ?_⟩⟩
    exact Parser.result_bind_eq_some_iff.2 ⟨others, rest, hothers, rfl⟩

theorem Grammar.starts_path_iff {text : Text} :
    (rows names '.').Starts text ↔ BeginsName text := by
  let input : Input := { ahead := text }
  have hpath : (path input).result.isSome ↔ (identifier input).result.isSome := by
    rw [path, Parser.result_label, isSome_result_chain_iff]
  rw [beginsName_iff]
  exact describes_path.isSome_result_iff.symm.trans
    (hpath.trans describes_identifier.isSome_result_iff)

namespace Row

variable {row : Row} {text : Text}

theorem beginsName_text (hrow : ∀ t ∈ row.toList, IsName t) : BeginsName (row.text '.') :=
  ⟨row.first, _, hrow row.first (by simp [toList]), rfl⟩

theorem text_ne_nil (hrow : ∀ t ∈ row.toList, IsName t) : row.text '.' ≠ [] :=
  List.append_ne_nil_of_left_ne_nil (hrow row.first (by simp [toList])).1 _

/-- A path is as long as it can be where no further name is announced. -/
theorem isLongestPathOf_iff : row.IsLongestPathOf text ↔
    (∀ t ∈ row.toList, IsName t) ∧
      ∃ rest, text = row.text '.' ++ rest ∧ Grammar.names.ListFinal '.' rest := by
  have hgrows := @Grammar.grows_rows _ _ '.' Grammar.grows_names
  constructor
  · intro h
    obtain ⟨⟨hnames, rest, rfl⟩, hlongest⟩ := h
    refine ⟨hnames, rest, rfl, (Grammar.describes_path.final_iff hgrows hnames).2 ?_⟩
    exact fun other rest' hother heq => hlongest other ⟨hother, rest', heq⟩
  · intro h
    obtain ⟨hnames, rest, rfl, hfinal⟩ := h
    refine ⟨⟨hnames, rest, rfl⟩, fun other hother => ?_⟩
    obtain ⟨hother, rest', heq⟩ := hother
    exact Grammar.describes_path.length_le_of_final hgrows hnames hfinal hother heq

end Row

theorem exists_stages_or_missingCall (start : Nat) (text : Text) :
    (∃ stages : List Stage, (∀ stage ∈ stages, stage.IsGrammatical) ∧
        text = stages.flatMap fun stage => ':' :: stage.text) ∨
      ∃ place rule, MissingCall start text place rule := by
  induction hlength : text.length using Nat.strongRecOn generalizing start text with
  | ind length ih =>
    by_cases hnil : text = []
    · exact .inl ⟨[], by simp, by simp [hnil]⟩
    by_cases hcolon : text.head? = some ':'
    · obtain ⟨rest, rfl⟩ := List.head?_eq_some_iff.1 hcolon
      by_cases hname : BeginsName rest
      · by_cases hstage : BeginsStage rest
        · obtain ⟨stage, behind, hvalid, rfl, hstops⟩ := beginsStage_iff.1 hstage
          have hshorter : behind.length < length := by
            rw [← hlength, List.length_cons, List.length_append]
            omega
          rcases ih _ hshorter (start + 1 + stage.text.width) behind rfl with
            ⟨stages, hstages, rfl⟩ | ⟨place, rule, h⟩
          · exact .inl ⟨stage :: stages, List.forall_mem_cons.2 ⟨hvalid, hstages⟩, rfl⟩
          · exact .inr ⟨place, rule, .later hvalid (forall_head?_iff_stops.2 hstops) h⟩
        · exact .inr ⟨start + 1, .call, .call hname hstage⟩
      · exact .inr ⟨start + 1, .identifier, .name hname⟩
    · exact .inr ⟨start, .endOfInput, .atEnd hnil hcolon⟩

theorem exists_spelling_or_missing (text : Text) :
    (∃ s : Spelling, s.IsGrammatical ∧ s.text = text) ∨
      ∃ place rule, Missing text place rule := by
  by_cases hname : BeginsName text
  · obtain ⟨row, rest, hrow, heq, hfinal⟩ := Grammar.starts_path_iff.2 hname
    have hlongest : row.IsLongestPathOf text := Row.isLongestPathOf_iff.2 ⟨hrow, rest, heq, hfinal⟩
    by_cases hpoint : rest.head? = some '.'
    · obtain ⟨behind, rfl⟩ := List.head?_eq_some_iff.1 hpoint
      exact .inr ⟨_, .identifier, .segment hlongest heq⟩
    · rcases exists_stages_or_missingCall (row.text '.').width rest with
        ⟨stages, hstages, rfl⟩ | ⟨place, rule, h⟩
      · exact .inl ⟨⟨row, stages⟩, ⟨hrow, hstages⟩, heq.symm⟩
      · exact .inr ⟨place, rule, .behindPath hlongest heq hpoint h⟩
  · refine .inr ⟨0, .identifier, .path fun row hrow => hname ?_⟩
    obtain ⟨hnames, rest, rfl⟩ := hrow
    exact (Row.beginsName_text hnames).append

end Stencil

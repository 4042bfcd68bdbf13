import Stencil.Body.Grammar
import Stencil.Proofs.Body.Spelling

/-! # The languages of the rules

Each rule of the grammar of bodies is described by a language. The rule for a whole body reads just
the grammatical spellings, and it reads each of them as itself.
-/

namespace Stencil.Grammar
open Stencil.Language Input

def pieces (Valid : Text → Prop) (extends? : Char → Bool) : Language Text Piece where
  text := id
  place := Piece.mk
  Valid := Valid
  Final := Text.Stops extends?

def names : Language Text Piece := pieces IsName fun c => !isStructural c

def arguments : Language Text Piece := pieces IsArgument fun c => !endsArgument c

def rows (pieces : Language Text Piece) (separator : Char) : Language Row (Chain separator) where
  text := Row.text separator
  place := Row.place separator
  Valid row := ∀ t ∈ row.toList, pieces.Valid t
  Final := pieces.ListFinal separator

def stages : Language Stage WrittenCall where
  text := Stage.text
  place := Stage.place
  Valid := Stage.IsGrammatical
  Final := Text.Stops Char.isWhitespace

def spellings : Language Spelling WrittenBody where
  text := Spelling.text
  place := Spelling.place
  Valid := Spelling.IsGrammatical
  Final t := t = []

theorem isName_iff {t : Text} : IsName t ↔ t ≠ [] ∧ ∀ c ∈ t, (!isStructural c) = true := by
  simp [IsName, isStructural]

theorem isArgument_iff {t : Text} : IsArgument t ↔ ∀ c ∈ t, (!endsArgument c) = true := by
  simp [IsArgument, endsArgument]

theorem isLayout_iff {t : Text} : IsLayout t ↔ ∀ c ∈ t, c.isWhitespace = true := by
  simp [IsLayout, Char.isWhitespace, or_assoc]

theorem result_piece_eq_some_iff {p : Parser Rule Text} {input rest : Input} {b : Piece} :
    (piece p input).result = some (b, rest) ↔
      ∃ t, (p input).result = some (t, rest) ∧ b = ⟨input.offset, t⟩ := by
  rw [piece_apply]
  simp only [Option.map_eq_some_iff, Prod.exists, Prod.mk.injEq]
  constructor
  · rintro ⟨t, _, h, rfl, rfl⟩
    exact ⟨t, h, rfl⟩
  · rintro ⟨t, h, rfl⟩
    exact ⟨t, rest, h, rfl, rfl⟩

theorem describes_identifier : names.Describes identifier := by
  intro input b rest
  rw [identifier_apply]
  split
  · next hempty =>
    simp only [reduceCtorEq, false_iff]
    rintro ⟨t, ht, -, hread, hstops⟩
    apply (isName_iff.1 ht).1
    rw [← hempty]
    exact (Text.takeWhile_eq_and_dropWhile_eq_iff.2
      ⟨hread.ahead_eq, (isName_iff.1 ht).2, hstops⟩).1.symm
  · next hsome =>
    simp only [result_piece_eq_some_iff, Parser.result_takeWhile_eq_some_iff]
    constructor
    · rintro ⟨t, ⟨hall, hread, hstops⟩, rfl⟩
      refine ⟨t, isName_iff.2 ⟨?_, hall⟩, rfl, hread, hstops⟩
      rintro rfl
      apply hsome
      exact (Text.takeWhile_eq_and_dropWhile_eq_iff.2 ⟨hread.ahead_eq, hall, hstops⟩).1
    · rintro ⟨t, ht, rfl, hread, hstops⟩
      exact ⟨t, ⟨(isName_iff.1 ht).2, hread, hstops⟩, rfl⟩

theorem describes_argument : arguments.Describes argument := by
  intro input b rest
  rw [argument_apply]
  simp only [result_piece_eq_some_iff, Parser.result_takeWhile_eq_some_iff]
  constructor
  · rintro ⟨t, ⟨hall, hread, hstops⟩, rfl⟩
    exact ⟨t, isArgument_iff.2 hall, rfl, hread, hstops⟩
  · rintro ⟨t, ht, rfl, hread, hstops⟩
    exact ⟨t, ⟨isArgument_iff.1 ht, hread, hstops⟩, rfl⟩

theorem describes_chain {Valid : Text → Prop} {extends? : Char → Bool} {p : Parser Rule Piece}
    (h : (pieces Valid extends?).Describes p) {separator : Char}
    (hseparator : extends? separator = false) :
    (rows (pieces Valid extends?) separator).Describes (chain separator p) := by
  have hfinal : ∀ t, (pieces Valid extends?).Final (separator :: t) :=
    fun t => Text.stops_cons_iff.2 hseparator
  intro input b rest
  constructor
  · intro hb
    rcases Parser.result_bind_eq_some_iff.1 hb with ⟨first, mid, hfirst, hb⟩
    rcases Parser.result_bind_eq_some_iff.1 hb with ⟨others, last, hothers, hb⟩
    cases hb
    rcases (h input first mid).1 hfirst with ⟨t, ht, rfl, hread, hmid⟩
    rcases (h.many hfinal hmid).1 hothers with ⟨ts, hts, rfl, hlater, hend⟩
    refine ⟨⟨t, ts⟩, ?_, ?_, hread.trans hlater, hend⟩
    · intro s hs
      rcases List.mem_cons.1 hs with rfl | hs
      · exact ht
      · exact hts s hs
    · rw [hread.offset_eq]
      rfl
  · rintro ⟨⟨t, ts⟩, hrow, rfl, hread, hend⟩
    rcases reaches_append_iff.1 hread with ⟨mid, hread, hlater⟩
    -- the first piece ends at a separator, or where the row does
    have hmid : (pieces Valid extends?).Final mid.ahead := by
      rw [hlater.ahead_eq]
      cases ts with
      | nil => exact hend.1
      | cons s ts => exact hfinal _
    have hfirst := (h input _ mid).2 ⟨t, hrow t (by simp [Row.toList]), rfl, hread, hmid⟩
    have hothers := (h.many hfinal hmid).2
      ⟨ts, fun s hs => hrow s (by simp [Row.toList, hs]), rfl, hlater, hend⟩
    refine Parser.result_bind_eq_some_iff.2 ⟨_, mid, hfirst, ?_⟩
    refine Parser.result_bind_eq_some_iff.2 ⟨_, rest, hothers, ?_⟩
    rw [hread.offset_eq]
    rfl

theorem describes_path : (rows names '.').Describes path := by
  intro input b rest
  rw [path, Parser.result_label]
  exact describes_chain describes_identifier rfl input b rest

theorem describes_argumentList : (rows arguments ',').Describes argumentList := by
  intro input b rest
  rw [argumentList, Parser.result_label]
  exact describes_chain describes_argument rfl input b rest

theorem stage_text_eq (stage : Stage) :
    stage.text =
      stage.name ++ (['('] ++ (stage.arguments.text ',' ++ ([')'] ++ stage.trailing))) := by
  simp [Stage.text]

theorem describes_call : stages.Describes call := by
  intro input b rest
  rw [call, Parser.result_label]
  constructor
  · intro hb
    rcases Parser.result_bind_eq_some_iff.1 hb with ⟨_, afterName, hname, hb⟩
    rcases Parser.result_bind_eq_some_iff.1 hb with ⟨_, afterOpen, hopen, hb⟩
    rcases Parser.result_bind_eq_some_iff.1 hb with ⟨_, afterRow, hrow, hb⟩
    rcases Parser.result_bind_eq_some_iff.1 hb with ⟨_, afterClose, hclose, hb⟩
    rcases Parser.result_bind_eq_some_iff.1 hb with ⟨trailing, last, htrailing, hb⟩
    cases hb
    rcases (describes_identifier ..).1 hname with ⟨name, hnameValid, rfl, hnameRead, -⟩
    rcases Parser.result_char_eq_some_iff.1 hopen with ⟨rfl, hopenRead⟩
    rcases (describes_argumentList ..).1 hrow with ⟨row, hrowValid, rfl, hrowRead, -⟩
    rcases Parser.result_char_eq_some_iff.1 hclose with ⟨rfl, hcloseRead⟩
    rcases Parser.result_takeWhile_eq_some_iff.1 htrailing with ⟨hlayout, hlast, hstops⟩
    refine ⟨⟨name, row, trailing⟩, ⟨hnameValid, hrowValid, isLayout_iff.2 hlayout⟩, ?_, ?_, hstops⟩
    · rw [hopenRead.offset_eq, hnameRead.offset_eq]
      rfl
    · change input.Reaches (Stage.text _) _
      rw [stage_text_eq]
      exact hnameRead.trans (hopenRead.trans (hrowRead.trans (hcloseRead.trans hlast)))
  · rintro ⟨⟨name, row, trailing⟩, ⟨hname, hrow, htrailing⟩, rfl, hread, hstops⟩
    change input.Reaches (Stage.text _) rest at hread
    rw [stage_text_eq] at hread
    rcases reaches_append_iff.1 hread with ⟨afterName, hnameRead, hread⟩
    rcases reaches_append_iff.1 hread with ⟨afterOpen, hopenRead, hread⟩
    rcases reaches_append_iff.1 hread with ⟨afterRow, hrowRead, hread⟩
    rcases reaches_append_iff.1 hread with ⟨afterClose, hcloseRead, hread⟩
    have hnameEnd : names.Final afterName.ahead := by
      rw [hopenRead.ahead_eq]
      exact Text.stops_cons_iff.2 rfl
    have hrowEnd : arguments.ListFinal ',' afterRow.ahead := by
      rw [hcloseRead.ahead_eq]
      refine ⟨Text.stops_cons_iff.2 rfl, fun more hmore => ?_⟩
      cases hmore
    refine Parser.result_bind_eq_some_iff.2 ⟨_, afterName,
      (describes_identifier ..).2 ⟨name, hname, rfl, hnameRead, hnameEnd⟩, ?_⟩
    refine Parser.result_bind_eq_some_iff.2 ⟨'(', afterOpen,
      Parser.result_char_eq_some_iff.2 ⟨rfl, hopenRead⟩, ?_⟩
    refine Parser.result_bind_eq_some_iff.2 ⟨_, afterRow,
      (describes_argumentList ..).2 ⟨row, hrow, rfl, hrowRead, hrowEnd⟩, ?_⟩
    refine Parser.result_bind_eq_some_iff.2 ⟨')', afterClose,
      Parser.result_char_eq_some_iff.2 ⟨rfl, hcloseRead⟩, ?_⟩
    refine Parser.result_bind_eq_some_iff.2 ⟨trailing, rest,
      Parser.result_takeWhile_eq_some_iff.2 ⟨isLayout_iff.1 htrailing, hread, hstops⟩, ?_⟩
    rw [hopenRead.offset_eq, hnameRead.offset_eq]
    rfl

/-- Layout is written with characters that may stand in a name. -/
theorem stops_isWhitespace_of_stops {t : Text} (h : t.Stops fun c => !isStructural c) :
    t.Stops Char.isWhitespace := by
  intro c hc
  have hstructural := h c hc
  simp only [isStructural, Bool.not_eq_false', decide_eq_true_eq, List.mem_cons, List.not_mem_nil,
    or_false] at hstructural
  rcases hstructural with rfl | rfl | rfl | rfl | rfl <;> rfl

theorem result_endOfInput_eq_some_iff {input rest : Input} :
    (endOfInput input).result = some ((), rest) ↔ input.ahead = [] ∧ rest = input := by
  rw [endOfInput, Parser.result_label]
  simp [Parser.endOfInput, eq_comm]

theorem describes_body : spellings.Describes body := by
  intro input b rest
  rw [body, Parser.result_label]
  have hcolon : ∀ t, stages.Final (':' :: t) := fun t => Text.stops_cons_iff.2 rfl
  constructor
  · intro hb
    rcases Parser.result_bind_eq_some_iff.1 hb with ⟨_, afterPath, hpath, hb⟩
    rcases Parser.result_bind_eq_some_iff.1 hb with ⟨_, afterCalls, hcalls, hb⟩
    rcases Parser.result_bind_eq_some_iff.1 hb with ⟨_, last, hend, hb⟩
    cases hb
    rcases (describes_path ..).1 hpath with ⟨row, hrow, rfl, hrowRead, hrowEnd⟩
    rcases (describes_call.many hcolon (stops_isWhitespace_of_stops hrowEnd.1)).1 hcalls with
      ⟨list, hlist, rfl, hlistRead, -⟩
    rcases result_endOfInput_eq_some_iff.1 hend with ⟨hnil, rfl⟩
    refine ⟨⟨row, list⟩, ⟨hrow, hlist⟩, ?_, hrowRead.trans hlistRead, hnil⟩
    rw [hrowRead.offset_eq]
    rfl
  · rintro ⟨⟨row, list⟩, ⟨hrow, hlist⟩, rfl, hread, hnil⟩
    rcases reaches_append_iff.1 hread with ⟨afterPath, hrowRead, hlistRead⟩
    change rest.ahead = [] at hnil
    -- behind the path stands a colon or nothing, so it reads no further
    have hrowEnd : names.ListFinal '.' afterPath.ahead := by
      rw [hlistRead.ahead_eq, hnil]
      cases list with
      | nil => exact ⟨Text.stops_nil, fun more hmore => by cases hmore⟩
      | cons stage list => exact ⟨Text.stops_cons_iff.2 rfl, fun more hmore => by cases hmore⟩
    have hlistEnd : stages.ListFinal ':' rest.ahead := by
      rw [hnil]
      exact ⟨Text.stops_nil, fun more hmore => by cases hmore⟩
    refine Parser.result_bind_eq_some_iff.2 ⟨_, afterPath,
      (describes_path ..).2 ⟨row, hrow, rfl, hrowRead, hrowEnd⟩, ?_⟩
    refine Parser.result_bind_eq_some_iff.2 ⟨_, rest,
      (describes_call.many hcolon (stops_isWhitespace_of_stops hrowEnd.1)).2
        ⟨list, hlist, rfl, hlistRead, hlistEnd⟩, ?_⟩
    refine Parser.result_bind_eq_some_iff.2 ⟨_, rest,
      result_endOfInput_eq_some_iff.2 ⟨hnil, rfl⟩, ?_⟩
    rw [hrowRead.offset_eq]
    rfl

theorem read_eq_ok_iff {α : Type} {rule : Parser Rule α} {text : Text} {a : α} :
    read rule text = .ok a ↔ ∃ rest, (rule { ahead := text }).result = some (a, rest) := by
  unfold read
  split
  · next found rest frontier h => simp [h, eq_comm]
  · next frontier h => simp [h]

/-- A whole text is read as a body just if it is the text of a grammatical spelling. -/
theorem read_body_eq_ok_iff {text : Text} {written : WrittenBody} :
    read body text = .ok written ↔
      ∃ s : Spelling, s.IsGrammatical ∧ s.text = text ∧ written = s.place 0 := by
  rw [read_eq_ok_iff]
  constructor
  · rintro ⟨rest, h⟩
    rcases (describes_body ..).1 h with ⟨s, hs, rfl, hread, hnil⟩
    refine ⟨s, hs, ?_, rfl⟩
    have hahead := hread.ahead_eq
    rw [show rest.ahead = [] from hnil, List.append_nil] at hahead
    exact hahead.symm
  · rintro ⟨s, hs, rfl, rfl⟩
    refine ⟨⟨s.text.width, []⟩, (describes_body ..).2 ⟨s, hs, rfl, ⟨?_, ?_⟩, rfl⟩⟩
    · exact (List.append_nil _).symm
    · exact (Nat.zero_add _).symm

/-- A text has one grammatical spelling at most. -/
theorem eq_of_text_eq {s s' : Spelling} (h : s.IsGrammatical) (h' : s'.IsGrammatical)
    (heq : s.text = s'.text) : s = s' := by
  have hread : read body s.text = .ok (s.place 0) := read_body_eq_ok_iff.2 ⟨s, h, rfl, rfl⟩
  have hread' : read body s.text = .ok (s'.place 0) := read_body_eq_ok_iff.2 ⟨s', h', heq.symm, rfl⟩
  rw [hread, Except.ok.injEq] at hread'
  rw [← spelling_place 0 s, hread', spelling_place]

end Stencil.Grammar

import Stencil.Body.Grammar
import Stencil.Proofs.Parser.Report
import Stencil.Proofs.Body.Missing

/-! # The report on a text that is no body

Names and calls report nothing where they are read, so the report on a whole text is made of the
attempts behind the last of them. A name or a call that is missing behind its separator is further
into the text than the missing end, so that one rule alone is reported.
-/

namespace Stencil.Grammar
open Stencil.Parser

variable {input rest : Input} {text : Text} {start place : Nat} {rule : Rule}

theorem isSilent_piece {p : Parser Rule Text} (h : p.IsSilent) : (piece p).IsSilent := by
  intro input
  rw [piece_apply]
  exact h input

theorem isSilent_argument : argument.IsSilent := by
  intro input
  rw [argument_apply]
  exact isSilent_piece (isSilent_takeWhile _) input

theorem isSilent_argumentList : argumentList.IsSilent := by
  intro input
  have hchain : (chain ',' argument).IsSilent := by
    apply isSilent_argument.bind
    intro first
    apply IsSilent.bind
    · exact ((isSilent_char ',').bind fun _ => isSilent_argument).many
    · exact fun others => isSilent_pure _
  have hsome : (chain ',' argument input).result.isSome := by
    rw [isSome_result_chain_iff, argument_apply, piece_apply]
    rfl
  rw [argumentList, label_of_some _ hsome]
  exact hchain input

theorem isQuiet_identifier : identifier.IsQuiet := by
  intro input hsome
  rw [identifier_apply] at hsome ⊢
  split at hsome
  · cases hsome
  · next hrun =>
    rw [if_neg hrun]
    exact isSilent_piece (isSilent_takeWhile _) input

theorem identifier_of_not_beginsName (h : ¬ BeginsName input.ahead) :
    identifier input = ⟨none, ⟨input.offset, [.identifier]⟩⟩ := by
  rw [beginsName_iff, ← describes_identifier.isSome_result_iff] at h
  rw [identifier_apply] at h ⊢
  split at h
  · next hrun => rw [if_pos hrun]
  · exact absurd (by rw [piece_apply]; rfl) h

def behindName (name : Piece) : Parser Rule WrittenCall := do
  let _ ← Parser.char '('
  let arguments ← argumentList
  let _ ← Parser.char ')'
  let trailing ← Parser.takeWhile Char.isWhitespace
  return { name, arguments, trailing }

theorem call_eq : call = (identifier >>= behindName).label .call := rfl

theorem isSilent_behindName (name : Piece) : (behindName name).IsSilent :=
  (isSilent_char '(').bind fun _ => isSilent_argumentList.bind fun _ =>
    (isSilent_char ')').bind fun _ => (isSilent_takeWhile _).bind fun _ => isSilent_pure _

theorem isQuiet_call : call.IsQuiet :=
  (isQuiet_identifier.bind fun name => (isSilent_behindName name).isQuiet).label .call

/-- Where no name stands, a call reports the name and not itself. -/
theorem call_of_not_beginsName (h : ¬ BeginsName input.ahead) :
    call input = ⟨none, ⟨input.offset, [.identifier]⟩⟩ := by
  rw [call_eq]
  exact label_bind_of_first .call (identifier_of_not_beginsName h)

/-- Behind its name, a call reports itself from its start. -/
theorem call_of_not_beginsStage (hname : BeginsName input.ahead) (h : ¬ BeginsStage input.ahead) :
    call input = ⟨none, ⟨input.offset, [.call]⟩⟩ := by
  rw [beginsName_iff, ← describes_identifier.isSome_result_iff] at hname
  rw [beginsStage_iff, ← describes_call.isSome_result_iff, call_eq, result_label] at h
  rw [call_eq]
  apply label_of_frontier_eq
  · exact Option.not_isSome_iff_eq_none.1 h
  · obtain ⟨⟨name, rest⟩, hread⟩ := Option.isSome_iff_exists.1 hname
    rw [bind_apply_of_some behindName hread, isQuiet_identifier input hname,
      isSilent_behindName name rest, Frontier.empty_merge]

def nextName : Parser Rule Piece := do
  let _ ← Parser.char '.'
  identifier

def nextCall : Parser Rule WrittenCall := do
  let _ ← Parser.char ':'
  call

theorem isQuiet_nextName : nextName.IsQuiet :=
  (isSilent_char '.').isQuiet.bind fun _ => isQuiet_identifier

theorem isQuiet_nextCall : nextCall.IsQuiet :=
  (isSilent_char ':').isQuiet.bind fun _ => isQuiet_call

/-- A path reports what is missing behind a point at its end. -/
theorem frontier_path {written : Chain '.'} (h : (path input).result = some (written, rest)) :
    (path input).frontier = (nextName rest).frontier := by
  have hchain : (chain '.' identifier input).result = some (written, rest) := by
    rwa [path, result_label] at h
  obtain ⟨first, mid, hfirst, hbehind⟩ := result_bind_eq_some_iff.1 hchain
  obtain ⟨others, last, hothers, hend⟩ := result_bind_eq_some_iff.1 hbehind
  cases hend
  have hmany : (Parser.many (do let _ ← Parser.char '.'; identifier) mid).frontier =
      (nextName rest).frontier :=
    isQuiet_nextName.frontier_many describes_identifier.progresses_behind_char hothers
  rw [path, label_of_some _ (by rw [hchain]; rfl), chain, bind_apply_of_some _ hfirst,
    bind_apply_of_some _ hothers, isQuiet_identifier input (by rw [hfirst]; rfl)]
  simpa [pure_apply] using hmany

theorem path_of_not_beginsName (h : ¬ BeginsName input.ahead) :
    path input = ⟨none, ⟨input.offset, [.identifier]⟩⟩ := by
  rw [path, chain]
  exact label_bind_of_first .path (identifier_of_not_beginsName h)

theorem path_of_isLongestPathOf {row : Row} (h : row.IsLongestPathOf (row.text '.' ++ text)) :
    (path { ahead := row.text '.' ++ text }).result =
      some (row.place '.' 0, ⟨(row.text '.').width, text⟩) := by
  obtain ⟨hnames, rest, heq, hfinal⟩ := Row.isLongestPathOf_iff.1 h
  rw [List.append_cancel_left heq]
  exact (describes_path ..).2 ⟨row, hnames, rfl, ⟨rfl, (Nat.zero_add _).symm⟩, hfinal⟩

/-- What is read behind the calls asks for the end of the text. -/
def AsksForEnd {α : Type} (next : List WrittenCall → Parser Rule α) : Prop :=
  ∀ calls input, input.ahead ≠ [] → next calls input = ⟨none, ⟨input.offset, [.endOfInput]⟩⟩

variable {α : Type} {next : List WrittenCall → Parser Rule α}

theorem asksForEnd_endOfInput (last : List WrittenCall → Unit → Parser Rule α) :
    AsksForEnd fun calls => endOfInput >>= last calls := by
  intro calls input hne
  have hend : endOfInput input = ⟨none, ⟨input.offset, [.endOfInput]⟩⟩ := by
    apply label_of_frontier_eq
    · simp [Parser.endOfInput, hne]
    · rfl
  have hnone := bind_apply_of_none (last calls) (congrArg Reading.result hend)
  rwa [hend] at hnone

/-- What is missing behind a colon is further ahead than where the end of the text is missing. -/
theorem calls_of_call_eq (hnext : AsksForEnd next)
    (h : call ⟨start + 1, text⟩ = ⟨none, ⟨start + 1, [rule]⟩⟩) :
    (Parser.many nextCall >>= next) ⟨start, ':' :: text⟩ = ⟨none, ⟨start + 1, [rule]⟩⟩ := by
  have hcall : nextCall ⟨start, ':' :: text⟩ = ⟨none, ⟨start + 1, [rule]⟩⟩ := by
    rw [nextCall, behind_char_apply call rfl]
    exact h
  rw [many_bind_of_none (by rw [hcall]), hcall, hnext _ _ (List.cons_ne_nil _ _),
    Frontier.merge_of_offset_lt (Nat.lt_succ_self start)]

theorem calls_of_missingCall (hnext : AsksForEnd next) (h : MissingCall start text place rule) :
    (Parser.many nextCall >>= next) ⟨start, text⟩ = ⟨none, ⟨place, [rule]⟩⟩ := by
  induction h generalizing next with
  | @atEnd start rest hne hcolon =>
    have hstop : nextCall ⟨start, rest⟩ = { result := none } := behind_char_apply_of_ne call hcolon
    rw [many_bind_of_none (by rw [hstop]), hstop, hnext _ _ hne, Frontier.empty_merge]
  | name hname => exact calls_of_call_eq hnext (call_of_not_beginsName hname)
  | call hname hstage => exact calls_of_call_eq hnext (call_of_not_beginsStage hname hstage)
  | @later start stage rest place rule hstage hlayout h ih =>
    have hread : (nextCall ⟨start, ':' :: (stage.text ++ rest)⟩).result =
        some (stage.place (start + 1), ⟨start + 1 + stage.text.width, rest⟩) := by
      apply describes_call.behind_char.2
      exact ⟨stage, hstage, rfl, ⟨rfl, Nat.add_assoc ..⟩, forall_head?_iff_stops.1 hlayout⟩
    rw [isQuiet_nextCall.many_bind_of_some describes_call.progresses_behind_char hread]
    exact ih fun calls => hnext _

def behindPath (path : Chain '.') : Parser Rule WrittenBody := do
  let calls ← Parser.many nextCall
  let _ ← endOfInput
  return { path, calls }

theorem body_eq : body = (path >>= behindPath).label .body := rfl

theorem behindPath_of_missingCall (written : Chain '.') (h : MissingCall start text place rule) :
    behindPath written ⟨start, text⟩ = ⟨none, ⟨place, [rule]⟩⟩ := by
  apply calls_of_missingCall _ h
  exact asksForEnd_endOfInput fun calls _ => pure (WrittenBody.mk written calls)

theorem body_of_missingCall {written : Chain '.'}
    (hpath : (path input).result = some (written, ⟨start, text⟩))
    (h : MissingCall start text place rule) :
    body input =
      ⟨none, ((path input).frontier.merge ⟨place, [rule]⟩).blame .body input.offset⟩ := by
  have hbind := bind_apply_of_some behindPath hpath
  rw [behindPath_of_missingCall written h] at hbind
  rw [body_eq, label_of_none _ (by rw [hbind]), hbind]

theorem body_of_missing (h : Missing text place rule) :
    body { ahead := text } = ⟨none, ⟨place, [rule]⟩⟩ := by
  cases h with
  | path hnone =>
    have hname : ¬ BeginsName text := by
      intro hname
      obtain ⟨row, rest, hnames, heq, -⟩ := starts_path_iff.2 hname
      exact hnone row ⟨hnames, rest, heq⟩
    rw [body_eq]
    apply label_bind_of_first
    exact path_of_not_beginsName hname
  | @segment row rest hlongest heq =>
    subst heq
    have hpath := path_of_isLongestPathOf hlongest
    have hname : ¬ BeginsName rest := by
      obtain ⟨-, rest', heq, hfinal⟩ := Row.isLongestPathOf_iff.1 hlongest
      rw [beginsName_iff]
      exact hfinal.2 rest (List.append_cancel_left heq).symm
    have hfrontier : (path { ahead := row.text '.' ++ '.' :: rest }).frontier =
        ⟨(row.text '.').width + 1, [.identifier]⟩ := by
      rw [frontier_path hpath, nextName, behind_char_apply identifier rfl]
      exact congrArg Reading.frontier (identifier_of_not_beginsName hname)
    rw [body_of_missingCall hpath (.atEnd (List.cons_ne_nil _ _) (by simp)), hfrontier,
      Frontier.merge_of_offset_lt (Nat.lt_succ_self _), Frontier.blame_of_lt _ (Nat.succ_pos _)]
  | @behindPath row rest _ _ hlongest heq hpoint h =>
    subst heq
    have hpath := path_of_isLongestPathOf hlongest
    have hfrontier : (path { ahead := row.text '.' ++ rest }).frontier = {} := by
      rw [frontier_path hpath, nextName, behind_char_apply_of_ne identifier hpoint]
    have hplace : 0 < place := by
      have hpos := Text.width_pos (row.text_ne_nil hlongest.1.1)
      have hle := h.start_le
      omega
    rw [body_of_missingCall hpath h, hfrontier, Frontier.empty_merge, Frontier.blame_of_lt _ hplace]

end Stencil.Grammar

namespace Stencil

variable {text : Text} {place : Nat} {rule : Rule} {fault : BodyFault}

/-- A text that is no body is refused for what it lacks, at the place where that is missing. -/
theorem read_body_eq_error_iff : Grammar.read Grammar.body text = .error fault ↔
    ∃ place rule, Missing text place rule ∧ fault = ⟨place, .expected [rule]⟩ := by
  have hmissing : ∀ {place rule}, Missing text place rule →
      Grammar.read Grammar.body text = .error ⟨place, .expected [rule]⟩ := by
    intro place rule h
    rw [Grammar.read, Grammar.body_of_missing h]
  constructor
  · intro hfault
    rcases exists_spelling_or_missing text with ⟨s, hs, hspelled⟩ | ⟨place, rule, h⟩
    · rw [Grammar.read_body_eq_ok_iff.2 ⟨s, hs, hspelled, rfl⟩] at hfault
      cases hfault
    · rw [hmissing h, Except.error.injEq] at hfault
      exact ⟨place, rule, h, hfault.symm⟩
  · intro h
    obtain ⟨place, rule, h, rfl⟩ := h
    exact hmissing h

theorem Missing.unique {place' : Nat} {rule' : Rule} (h : Missing text place rule)
    (h' : Missing text place' rule') : place' = place ∧ rule' = rule := by
  have hread := read_body_eq_error_iff.2 ⟨place, rule, h, rfl⟩
  have hread' := read_body_eq_error_iff.2 ⟨place', rule', h', rfl⟩
  rw [hread] at hread'
  cases hread'
  exact ⟨rfl, rfl⟩

/-- A body that the grammar refuses lacks one thing at one place. The report names it and nothing
else, whatever is reserved. -/
theorem parse_of_read_body_eq_error (h : Grammar.read Grammar.body text = .error fault) :
    ∃ place rule,
      (∀ place' rule', Missing text place' rule' ↔ place' = place ∧ rule' = rule) ∧
      (∀ reserved, Body.parse text reserved = .error ⟨place, .expected [rule]⟩) ∧
      (rule, (Reason.expected [rule]).message) ∈ [(.identifier, "expected identifier"),
        (.call, "expected call"), (.endOfInput, "expected EOI")] := by
  obtain ⟨place, rule, hmissing, rfl⟩ := read_body_eq_error_iff.1 h
  refine ⟨place, rule, ?_, ?_, ?_⟩
  · intro place' rule'
    constructor
    · exact hmissing.unique
    · rintro ⟨rfl, rfl⟩
      exact hmissing
  · intro reserved
    rw [Body.parse, h]
    rfl
  · have hrule := hmissing.rule_mem
    simp only [List.mem_cons, List.not_mem_nil, or_false] at hrule
    rcases hrule with rfl | rfl | rfl <;> decide

/-- A call that is not closed is to blame from its start. -/
theorem parse_of_read_body_eq_error_unclosed :
    (∀ place rule, Missing "a:f(x".toList place rule ↔ place = 2 ∧ rule = .call) ∧
      ∀ reserved, Body.parse "a:f(x".toList reserved = .error ⟨2, .expected [.call]⟩ := by
  have hpath : Row.IsLongestPathOf "a:f(x".toList ⟨['a'], []⟩ := by
    apply Row.isLongestPathOf_iff.2
    exact ⟨by decide, ":f(x".toList, rfl, Text.stops_cons_iff.2 rfl, fun more h => by cases h⟩
  have hname : BeginsName "f(x".toList := ⟨['f'], "(x".toList, by decide, rfl⟩
  have hopen : ¬ BeginsStage "f(x".toList := by
    intro h
    obtain ⟨stage, rest, -, heq⟩ := h
    have hclose : ')' ∈ "f(x".toList := by
      rw [heq]
      simp [Stage.text]
    exact absurd hclose (by decide)
  have hread : Grammar.read Grammar.body "a:f(x".toList = .error ⟨2, .expected [.call]⟩ :=
    read_body_eq_error_iff.2 ⟨2, .call, .behindPath hpath rfl (by decide) (.call hname hopen), rfl⟩
  obtain ⟨place, rule, hmissing, hparse, -⟩ := parse_of_read_body_eq_error hread
  have hplain : Body.parse "a:f(x".toList [] = .error ⟨2, .expected [.call]⟩ := by
    rw [Body.parse, hread]
    rfl
  rw [hparse, Except.error.injEq] at hplain
  cases hplain
  exact ⟨hmissing, hparse⟩

end Stencil

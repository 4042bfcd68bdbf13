import Stencil.Proofs.Body.Report
import Stencil.Proofs.Body.Canonical
import Stencil.Proofs.Body.Tokens

/-! # Pieces at fault

A body that the grammar accepts is refused for the first of its pieces that is at fault: a name that
holds a reserved character, or a piece of blank characters alone. What is said of it depends on this
piece and its place, and on nothing behind it.
-/

namespace Stencil

/-- A path segment or a function name holds a reserved character, or any piece is blank. -/
def Part.IsFaulty (reserved : Text) (part : Part) : Prop :=
  part.kind ≠ .argument ∧ (∃ c ∈ part.piece.text, c ∈ reserved) ∨ part.piece.text.AllBlank

instance (t : Text) (P : Char → Prop) [DecidablePred P] : Decidable (∃ c ∈ t, P c) :=
  List.decidableBEx P t

instance (reserved : Text) (part : Part) : Decidable (part.IsFaulty reserved) :=
  inferInstanceAs (Decidable (_ ∧ (∃ c ∈ part.piece.text, c ∈ reserved) ∨ _))

/-- What is reported of a piece at fault, and in which words. That a name holds a reserved character
is said first, at the place of that character. -/
inductive Part.Report (reserved : Text) (part : Part) : BodyFault → String → Prop where
  | reserved (before after : Text) {c : Char} :
      part.kind ≠ .argument → part.piece.text = before ++ c :: after →
      (∀ x ∈ before, x ∉ reserved) → c ∈ reserved →
      Report reserved part
        ⟨part.piece.start + before.width, .reserved part.kind part.piece.text.trim c⟩
        (part.kind.name ++ " `" ++ String.ofList part.piece.text.trim ++
          "` contains delimiter character `" ++ String.singleton c ++ "`")
  | blank : (part.kind = .argument ∨ ∀ c ∈ part.piece.text, c ∉ reserved) →
      part.piece.text.AllBlank →
      Report reserved part ⟨part.piece.start, .blank part.kind⟩ ("empty " ++ part.kind.name)

def Part.check (reserved : Text) (part : Part) : Except BodyFault Text :=
  if part.kind = .argument then part.piece.trimmed part.kind
  else part.piece.nameOf part.kind reserved

section Piece

variable {kind : PieceKind} {reserved before after : Text} {piece : Piece} {fault : BodyFault}
  {c : Char}

theorem trimmed_eq_error_iff : piece.trimmed kind = .error fault ↔
    piece.text.AllBlank ∧ fault = ⟨piece.start, .blank kind⟩ := by
  rw [Piece.trimmed, Text.AllBlank, ← Text.trim_eq_nil_iff]
  split
  · next h => simp [h, eq_comm]
  · next h => simp [h]

theorem nameOf_of_not_mem (h : ∀ x ∈ piece.text, x ∉ reserved) :
    piece.nameOf kind reserved = piece.trimmed kind := by
  have hnil : piece.text.dropWhile (· ∉ reserved) = [] :=
    List.dropWhile_eq_nil_iff.2 (by simpa using h)
  rw [Piece.nameOf, hnil]

/-- The first reserved character of a name is the one that is found. -/
theorem nameOf_of_eq_append (htext : piece.text = before ++ c :: after)
    (hbefore : ∀ x ∈ before, x ∉ reserved) (hc : c ∈ reserved) :
    piece.nameOf kind reserved =
      .error ⟨piece.start + before.width, .reserved kind piece.text.trim c⟩ := by
  obtain ⟨hrun, hrest⟩ := (Text.takeWhile_eq_and_dropWhile_eq_iff (p := (· ∉ reserved))).2
    ⟨htext, by simpa using hbefore, Text.stops_cons_iff.2 (by simpa using hc)⟩
  rw [Piece.nameOf, hrest, hrun]

theorem exists_eq_append_of_mem_reserved {t : Text} (h : ∃ c ∈ t, c ∈ reserved) :
    ∃ before c after, t = before ++ c :: after ∧ (∀ x ∈ before, x ∉ reserved) ∧ c ∈ reserved := by
  induction t with
  | nil => simp at h
  | cons x t ih =>
    by_cases hx : x ∈ reserved
    · exact ⟨[], x, t, rfl, by simp, hx⟩
    · obtain ⟨before, c, after, rfl, hbefore, hc⟩ := ih (by simpa [hx] using h)
      exact ⟨x :: before, c, after, rfl, List.forall_mem_cons.2 ⟨hx, hbefore⟩, hc⟩

end Piece

namespace Part

variable {reserved : Text} {part : Part} {fault : BodyFault}

theorem Report.check_eq {message : String} (h : part.Report reserved fault message) :
    part.check reserved = .error fault ∧ fault.reason.message = message := by
  cases h with
  | reserved before after hkind htext hbefore hc =>
    rw [check, if_neg hkind, nameOf_of_eq_append htext hbefore hc]
    exact ⟨rfl, rfl⟩
  | blank hplain hblank =>
    refine ⟨?_, rfl⟩
    rw [check]
    split
    · exact trimmed_eq_error_iff.2 ⟨hblank, rfl⟩
    · next hkind =>
      rw [nameOf_of_not_mem (hplain.resolve_left hkind)]
      exact trimmed_eq_error_iff.2 ⟨hblank, rfl⟩

theorem IsFaulty.exists_report (h : part.IsFaulty reserved) :
    ∃ fault message, part.Report reserved fault message := by
  by_cases hname : part.kind ≠ .argument ∧ ∃ c ∈ part.piece.text, c ∈ reserved
  · obtain ⟨before, c, after, htext, hbefore, hc⟩ := exists_eq_append_of_mem_reserved hname.2
    exact ⟨_, _, .reserved before after hname.1 htext hbefore hc⟩
  · have hplain : part.kind = .argument ∨ ∀ c ∈ part.piece.text, c ∉ reserved := by
      by_cases hkind : part.kind = .argument
      · exact .inl hkind
      · exact .inr fun c hc hmem => hname ⟨hkind, c, hc, hmem⟩
    exact ⟨_, _, .blank hplain (h.resolve_left hname)⟩

theorem exists_check_eq_ok (h : ¬ part.IsFaulty reserved) : ∃ t, part.check reserved = .ok t := by
  rw [IsFaulty, not_or] at h
  rw [check]
  split
  · exact ⟨_, trimmed_eq_ok_iff_not_allBlank.2 ⟨h.2, rfl⟩⟩
  · next hkind =>
    have hunreserved : ∀ c ∈ part.piece.text, c ∉ reserved :=
      fun c hc hmem => h.1 ⟨hkind, c, hc, hmem⟩
    exact ⟨_, nameOf_eq_ok_iff_isFit.2 ⟨⟨hunreserved, h.2⟩, rfl⟩⟩

/-- The check of a part fails just where the part is at fault. -/
theorem isFaulty_iff : part.IsFaulty reserved ↔ ∃ fault, part.check reserved = .error fault := by
  constructor
  · intro h
    obtain ⟨fault, message, hreport⟩ := h.exists_report
    exact ⟨fault, hreport.check_eq.1⟩
  · intro h
    obtain ⟨fault, hfault⟩ := h
    by_contra hfaultless
    obtain ⟨t, ht⟩ := exists_check_eq_ok hfaultless
    cases hfault.symm.trans ht

theorem check_eq_error_iff :
    part.check reserved = .error fault ↔ part.Report reserved fault fault.reason.message := by
  constructor
  · intro h
    obtain ⟨found, message, hreport⟩ := (isFaulty_iff.2 ⟨fault, h⟩).exists_report
    obtain ⟨hcheck, rfl⟩ := hreport.check_eq
    rw [hcheck] at h
    cases h
    exact hreport
  · exact fun h => h.check_eq.1

end Part

section Decode

variable {reserved : Text} {fault : BodyFault}

theorem argumentsOf_eq_error_iff {arguments : Chain ','} :
    argumentsOf arguments = .error fault ↔
      (if arguments.row.IsVoid then []
        else arguments.toList.map (Part.mk .argument)).mapM (Part.check reserved) =
        .error fault := by
  rw [argumentsOf]
  simp only [← isVoid_row_iff]
  split
  · simp [pure, Except.pure]
  · rw [List.mapM_map]
    rfl

theorem decode_call_eq_error_iff {call : WrittenCall} :
    call.decode reserved = .error fault ↔
      call.parts.mapM (Part.check reserved) = .error fault := by
  rw [WrittenCall.decode, WrittenCall.parts, List.mapM_cons]
  apply bind_eq_error_congr
  · exact fun _ => Iff.rfl
  · intro name _
    rw [bind_pure_eq_error_iff, bind_pure_eq_error_iff]
    exact argumentsOf_eq_error_iff

/-- A body is refused as the first of its parts is that does not pass its check. -/
theorem decode_body_eq_error_iff {body : WrittenBody} :
    body.decode reserved = .error fault ↔
      body.parts.mapM (Part.check reserved) = .error fault := by
  rw [WrittenBody.decode, WrittenBody.parts, List.mapM_append, List.mapM_map]
  apply bind_eq_error_congr
  · exact fun _ => Iff.rfl
  · intro path _
    rw [bind_pure_eq_error_iff, bind_pure_eq_error_iff]
    exact mapM_flatMap_eq_error_iff fun _ _ => decode_call_eq_error_iff

end Decode

variable {text reserved : Text} {written : WrittenBody} {fault : BodyFault}

theorem parse_of_read_eq_ok (h : Grammar.read Grammar.body text = .ok written) :
    Body.parse text reserved = written.decode reserved := by
  rw [Body.parse, h]
  rfl

theorem parse_eq_error_iff_find? (h : Grammar.read Grammar.body text = .ok written) :
    Body.parse text reserved = .error fault ↔
      ∃ part, written.parts.find? (fun part => part.IsFaulty reserved) = some part ∧
        part.Report reserved fault fault.reason.message := by
  rw [parse_of_read_eq_ok h, decode_body_eq_error_iff,
    mapM_eq_error_iff_find? fun _ => Part.isFaulty_iff]
  simp only [Part.check_eq_error_iff]

theorem isFaulty_of_find? {parts : List Part} {part : Part}
    (h : parts.find? (fun part => part.IsFaulty reserved) = some part) :
    part.IsFaulty reserved := by
  have hfaulty := List.find?_some h
  simpa using hfaulty

theorem exists_parse_eq_error_iff (h : Grammar.read Grammar.body text = .ok written) :
    (∃ fault, Body.parse text reserved = .error fault) ↔
      ∃ part ∈ written.parts, part.IsFaulty reserved := by
  simp only [parse_eq_error_iff_find? h]
  constructor
  · intro hfault
    obtain ⟨fault, part, hfind, -⟩ := hfault
    exact ⟨part, List.mem_of_find?_eq_some hfind, isFaulty_of_find? hfind⟩
  · intro hfaulty
    obtain ⟨part, hfind⟩ : ∃ part,
        written.parts.find? (fun part => part.IsFaulty reserved) = some part := by
      apply Option.isSome_iff_exists.1
      simpa using hfaulty
    obtain ⟨fault, message, hreport⟩ := (isFaulty_of_find? hfind).exists_report
    obtain ⟨-, rfl⟩ := hreport.check_eq
    exact ⟨fault, part, hfind, hreport⟩

/-- A body that the grammar accepts is read as soon as none of its parts is at fault. -/
theorem exists_parse_eq_ok_iff (h : Grammar.read Grammar.body text = .ok written) :
    (∃ body, Body.parse text reserved = .ok body) ↔
      ∀ part ∈ written.parts, ¬ part.IsFaulty reserved := by
  have hfails := not_congr (@exists_parse_eq_error_iff _ reserved _ h)
  simp only [not_exists, not_and] at hfails
  rw [← hfails]
  cases Body.parse text reserved <;> simp

end Stencil

import Mathlib.Data.List.DropRight
import Stencil.Proofs.Body.Meaning

/-! # Canonical bodies

A body is canonical if a reader could have found it: its names can be written down and there is
nothing left to trim. Such a body is read back from what it is written as. Whatever text a body is
read from, it is canonical: trimming leaves no more than there was, and a second trimming finds
nothing to do.
-/

namespace Stencil

def IsCanonicalName (reserved t : Text) : Prop :=
  IsName t ∧ t.trim = t ∧ ∀ c ∈ t, c ∉ reserved

def IsCanonicalArgument (t : Text) : Prop := t ≠ [] ∧ t.trim = t ∧ IsArgument t

structure Call.IsCanonical (reserved : Text) (call : Call) : Prop where
  name : IsCanonicalName reserved call.name
  arguments : ∀ t ∈ call.arguments, IsCanonicalArgument t

structure Body.IsCanonical (reserved : Text) (body : Body) : Prop where
  path_ne_nil : body.path ≠ []
  path : ∀ t ∈ body.path, IsCanonicalName reserved t
  pipeline : ∀ call ∈ body.pipeline, call.IsCanonical reserved

instance (reserved t : Text) : Decidable (IsCanonicalName reserved t) :=
  inferInstanceAs (Decidable (_ ∧ _ ∧ _))

instance (t : Text) : Decidable (IsCanonicalArgument t) := inferInstanceAs (Decidable (_ ∧ _ ∧ _))

instance (reserved : Text) (call : Call) : Decidable (call.IsCanonical reserved) :=
  decidable_of_iff (_ ∧ _) ⟨fun ⟨h, h'⟩ => ⟨h, h'⟩, fun ⟨h, h'⟩ => ⟨h, h'⟩⟩

instance (reserved : Text) (body : Body) : Decidable (body.IsCanonical reserved) :=
  decidable_of_iff (_ ∧ _ ∧ _)
    ⟨fun ⟨h, h', h''⟩ => ⟨h, h', h''⟩, fun ⟨h, h', h''⟩ => ⟨h, h', h''⟩⟩

theorem map_eq_self {α : Type} {f : α → α} {as : List α} (h : ∀ a ∈ as, f a = a) :
    as.map f = as :=
  (List.map_congr_left h).trans (List.map_id as)

theorem not_allBlank_of_trim_eq {t : Text} (hne : t ≠ []) (htrim : t.trim = t) : ¬ t.AllBlank := by
  rw [← trim_ne_nil_iff, htrim]
  exact hne

theorem IsCanonicalName.isFit {reserved t : Text} (h : IsCanonicalName reserved t) :
    IsFit reserved t :=
  ⟨h.2.2, not_allBlank_of_trim_eq h.1.1 h.2.1⟩

def Row.ofList (lead : Text) : List Text → Row
  | [] => ⟨[], []⟩
  | t :: ts => ⟨t, ts.map (lead ++ ·)⟩

namespace Row

variable {lead : Text} {ts : List Text}

theorem text_ofList (separator : Char) (lead : Text) (ts : List Text) :
    (ofList lead ts).text separator = (separator :: lead).intercalate ts := by
  cases ts with
  | nil => rfl
  | cons t ts =>
    induction ts generalizing t with
    | nil => simp [ofList, text]
    | cons t' ts ih =>
      rw [List.intercalate_cons_cons, ← ih]
      simp [ofList, text]

theorem text_eq_intercalate (separator : Char) (row : Row) :
    row.text separator = [separator].intercalate row.toList := by
  rw [← text_ofList]
  simp [ofList, toList]

theorem forall_mem_ofList {P : Text → Prop} (hnil : ts = [] → P []) (h : ∀ t ∈ ts, P t)
    (hlead : ∀ t ∈ ts, P (lead ++ t)) : ∀ t ∈ (ofList lead ts).toList, P t := by
  cases ts with
  | nil => simpa [ofList, toList] using hnil
  | cons t ts => simp_all [ofList, toList]

theorem map_trim_ofList (hts : ts ≠ []) (htrim : ∀ t ∈ ts, t.trim = t)
    (hlead : ∀ t ∈ ts, (lead ++ t).trim = t) : (ofList lead ts).toList.map Text.trim = ts := by
  cases ts with
  | nil => exact absurd rfl hts
  | cons t ts =>
    have hothers : ts.map (Text.trim ∘ (lead ++ ·)) = ts :=
      map_eq_self fun t' ht' => hlead t' (by simp [ht'])
    rw [ofList, toList, List.map_cons, List.map_map, htrim t (by simp), hothers]

end Row

/-- A space stands before each argument but the first. -/
def Call.stage (call : Call) : Stage := ⟨call.name, .ofList [' '] call.arguments, []⟩

def Body.spelling (body : Body) : Spelling := ⟨.ofList [] body.path, body.pipeline.map Call.stage⟩

theorem Call.text_stage (call : Call) : call.stage.text = call.display := by
  simp [stage, Stage.text, display, Row.text_ofList]

theorem Body.text_spelling (body : Body) : body.spelling.text = body.text := by
  simp [spelling, Spelling.text, text, Row.text_ofList, List.flatMap_map, Call.text_stage]

namespace Call.IsCanonical

variable {reserved : Text} {call : Call}

theorem isGrammatical_stage (h : call.IsCanonical reserved) : call.stage.IsGrammatical where
  name := h.name.1
  arguments := by
    apply Row.forall_mem_ofList
    · intro _ c hc
      cases hc
    · exact fun t ht => (h.arguments t ht).2.2
    · intro t ht c hc
      rcases List.mem_cons.1 hc with rfl | hc
      · decide
      · exact (h.arguments t ht).2.2 c hc
  trailing := by
    intro c hc
    cases hc

theorem isVoid_iff (h : call.IsCanonical reserved) :
    call.stage.arguments.IsVoid ↔ call.arguments = [] := by
  rcases call with ⟨name, arguments⟩
  cases arguments with
  | nil => simp [stage, Row.ofList, Row.IsVoid, Text.AllBlank]
  | cons t ts =>
    have ht := h.arguments t (by simp)
    have hblank : ¬ t.AllBlank := not_allBlank_of_trim_eq ht.1 ht.2.1
    simp [stage, Row.ofList, Row.IsVoid, hblank]

theorem trim_lead (h : call.IsCanonical reserved) {t : Text} (ht : t ∈ call.arguments) :
    Text.trim ([' '] ++ t) = t := by
  rw [List.singleton_append, Text.trim_cons_of_isBlank (by decide), (h.arguments t ht).2.1]

theorem isMeaningful_stage (h : call.IsCanonical reserved) :
    call.stage.IsMeaningful reserved where
  name := h.name.isFit
  arguments := by
    rw [h.isVoid_iff]
    by_cases hnil : call.arguments = []
    · exact .inl hnil
    · apply Or.inr
      apply Row.forall_mem_ofList
      · exact fun hnil' => absurd hnil' hnil
      · exact fun t ht => not_allBlank_of_trim_eq (h.arguments t ht).1 (h.arguments t ht).2.1
      · intro t ht
        rw [← trim_ne_nil_iff, h.trim_lead ht]
        exact (h.arguments t ht).1

theorem call_stage (h : call.IsCanonical reserved) : call.stage.call = call := by
  have hname : call.stage.name.trim = call.name := h.name.2.1
  rw [Stage.call, hname]
  by_cases hnil : call.arguments = []
  · rw [if_pos (h.isVoid_iff.2 hnil), ← hnil]
  · have htrim : call.stage.arguments.toList.map Text.trim = call.arguments :=
      Row.map_trim_ofList hnil (fun t ht => (h.arguments t ht).2.1) fun t ht => h.trim_lead ht
    rw [if_neg (mt h.isVoid_iff.1 hnil), htrim]

end Call.IsCanonical

namespace Body.IsCanonical

variable {reserved : Text} {body : Body}

theorem forall_mem_path {P : Text → Prop} (h : body.IsCanonical reserved)
    (hP : ∀ t ∈ body.path, P t) : ∀ t ∈ body.spelling.path.toList, P t :=
  Row.forall_mem_ofList (fun hnil => absurd hnil h.path_ne_nil) hP hP

theorem isGrammatical_spelling (h : body.IsCanonical reserved) : body.spelling.IsGrammatical where
  path := h.forall_mem_path fun t ht => (h.path t ht).1
  stages := List.forall_mem_map.2 fun call hcall => (h.pipeline call hcall).isGrammatical_stage

theorem isMeaningful_spelling (h : body.IsCanonical reserved) :
    body.spelling.IsMeaningful reserved where
  path := h.forall_mem_path fun t ht => (h.path t ht).isFit
  stages := List.forall_mem_map.2 fun call hcall => (h.pipeline call hcall).isMeaningful_stage

theorem body_spelling (h : body.IsCanonical reserved) : body.spelling.body = body := by
  have htrim : ∀ t ∈ body.path, t.trim = t := fun t ht => (h.path t ht).2.1
  have hpath : body.spelling.path.toList.map Text.trim = body.path :=
    Row.map_trim_ofList h.path_ne_nil htrim htrim
  have hpipeline : body.spelling.stages.map Stage.call = body.pipeline := by
    rw [spelling, List.map_map]
    exact map_eq_self fun call hcall => (h.pipeline call hcall).call_stage
  rw [Spelling.body, hpath, hpipeline]

/-- A canonical body is read back from what it is written as. -/
theorem parse_text (h : body.IsCanonical reserved) : Body.parse body.text reserved = .ok body :=
  parse_eq_ok_iff.2 ⟨body.spelling, text_spelling body, h.isGrammatical_spelling,
    h.isMeaningful_spelling, h.body_spelling⟩

end Body.IsCanonical

namespace Text

variable {p : Char → Bool} {t : Text} {c : Char}

theorem Stops.of_append {s rest : Text} (h : Stops p (s ++ rest)) : s.Stops p := by
  cases s with
  | nil => exact stops_nil
  | cons c s => exact stops_cons_iff.2 (stops_cons_iff.1 h)

theorem Stops.dropWhile_eq (h : t.Stops p) : t.dropWhile p = t := by
  cases t with
  | nil => rfl
  | cons c t =>
    apply List.dropWhile_cons_of_neg
    simpa using h

theorem exists_trimStart_eq (t : Text) : ∃ rest, t.trimStart = t.trim ++ rest := by
  obtain ⟨rest, hrest⟩ : t.trim <+: t.trimStart := List.rdropWhile_prefix isBlank t.trimStart
  exact ⟨rest, hrest.symm⟩

theorem mem_of_mem_trim (h : c ∈ t.trim) : c ∈ t := by
  obtain ⟨rest, hrest⟩ := exists_trimStart_eq t
  apply (List.dropWhile_suffix isBlank).subset
  rw [← trimStart, hrest]
  exact List.mem_append_left rest h

theorem trim_trim (t : Text) : t.trim.trim = t.trim := by
  obtain ⟨rest, hrest⟩ := exists_trimStart_eq t
  have hstops : Stops isBlank (t.trim ++ rest) := hrest ▸ stops_dropWhile isBlank t
  have hstart : t.trim.trimStart = t.trim := hstops.of_append.dropWhile_eq
  calc t.trim.trim = t.trim.trimEnd := congrArg trimEnd hstart
    _ = t.trim := List.rdropWhile_idempotent isBlank t.trimStart

end Text

variable {reserved t : Text}

theorem IsFit.isCanonicalName_trim (h : IsFit reserved t) (hname : IsName t) :
    IsCanonicalName reserved t.trim := by
  refine ⟨⟨trim_ne_nil_iff.2 h.2, fun c hc => ?_⟩, Text.trim_trim t, fun c hc => ?_⟩
  · exact hname.2 c (Text.mem_of_mem_trim hc)
  · exact h.1 c (Text.mem_of_mem_trim hc)

theorem isCanonicalArgument_trim (h : ¬ t.AllBlank) (hargument : IsArgument t) :
    IsCanonicalArgument t.trim :=
  ⟨trim_ne_nil_iff.2 h, Text.trim_trim t, fun c hc => hargument c (Text.mem_of_mem_trim hc)⟩

theorem Stage.isCanonical_call {stage : Stage} (h : stage.IsGrammatical)
    (hmeaning : stage.IsMeaningful reserved) : stage.call.IsCanonical reserved where
  name := hmeaning.name.isCanonicalName_trim h.name
  arguments := by
    by_cases hvoid : stage.arguments.IsVoid
    · simp [Stage.call, hvoid]
    · have hfull := hmeaning.arguments.resolve_left hvoid
      simp only [Stage.call, if_neg hvoid, List.forall_mem_map]
      exact fun t ht => isCanonicalArgument_trim (hfull t ht) (h.arguments t ht)

theorem Spelling.isCanonical_body {s : Spelling} (h : s.IsGrammatical)
    (hmeaning : s.IsMeaningful reserved) : s.body.IsCanonical reserved where
  path_ne_nil := by simp [Spelling.body, Row.toList]
  path := List.forall_mem_map.2 fun t ht => (hmeaning.path t ht).isCanonicalName_trim (h.path t ht)
  pipeline := List.forall_mem_map.2 fun stage hstage =>
    Stage.isCanonical_call (h.stages stage hstage) (hmeaning.stages stage hstage)

theorem isCanonical_of_parse {text : Text} {body : Body}
    (h : Body.parse text reserved = .ok body) : body.IsCanonical reserved := by
  obtain ⟨s, -, hs, hmeaning, rfl⟩ := parse_eq_ok_iff.1 h
  exact s.isCanonical_body hs hmeaning

/-- A body is canonical just if some text is read as it, and then the text that it is written as is
one of these. -/
theorem isCanonical_iff_parse (reserved : Text) (body : Body) :
    (body.IsCanonical reserved ↔ ∃ text, Body.parse text reserved = .ok body) ∧
    (body.IsCanonical reserved ↔ Body.parse body.text reserved = .ok body) := by
  refine ⟨⟨fun h => ⟨body.text, h.parse_text⟩, ?_⟩, fun h => h.parse_text, isCanonical_of_parse⟩
  rintro ⟨text, h⟩
  exact isCanonical_of_parse h

end Stencil

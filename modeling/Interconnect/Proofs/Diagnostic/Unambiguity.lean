import Interconnect.Diagnostic.Rendering
import Interconnect.Proofs.Diagnostic.Spelling
import Interconnect.Proofs.Text.Cutting

/-!
# What was written can be told from the text

The text of some diagnostics is read back in three layers.  Every line ends in a newline and has no
other, and so the text tells its lines (`join_lines_inj`).  What a line begins with is never the
beginning of what another kind of line begins with, and so each line tells what it is, whatever the
texts in it look like (`Renderer.lineText_inj`).  Only the first line of a diagnostic is an opening,
and the other ones are in a fixed order; so the lines tell the diagnostics
(`Diagnostic.flatMap_written_inj`).
-/

namespace Interconnect

/-! ## Lines of a text -/

/-- A text tells the lines that it was joined of. -/
theorem join_lines_inj {ls ls' : List String} (hls : ∀ l ∈ ls, '\n' ∉ l.toList)
    (hls' : ∀ l ∈ ls', '\n' ∉ l.toList)
    (h : String.join (ls.map (· ++ "\n")) = String.join (ls'.map (· ++ "\n"))) : ls = ls' := by
  have hlist : ls.flatMap (fun l => l.toList ++ ['\n'])
      = ls'.flatMap fun l => l.toList ++ ['\n'] := by
    simpa [← String.toList_inj, String.toList_join, List.flatMap_map] using h
  clear h
  induction ls generalizing ls' with
  | nil =>
    cases ls' with
    | nil => rfl
    | cons l' ls' => simp at hlist
  | cons l ls ih =>
    cases ls' with
    | nil => simp at hlist
    | cons l' ls' =>
      simp only [List.flatMap_cons, List.append_assoc, List.singleton_append] at hlist
      obtain ⟨hline, hrest⟩ :=
        append_separator_inj (hls l (by simp)) (hls' l' (by simp)) hlist
      rw [String.toList_inj.1 hline,
        ih (fun l hl => hls l (by simp [hl])) (fun l hl => hls' l (by simp [hl])) hrest]

/-! ## The kinds of lines -/

/-- What a line begins with. -/
inductive Lead where
  | opening (severity : Severity)
  | subject
  | note
  | help

/-- One line of what is written for a diagnostic. -/
inductive Line where
  /-- The first line. -/
  | opening (severity : Severity) (code : Code) (message : String)
  | subject (text : String)
  | note (text : String)
  | help (text : String)

namespace Line

/-- What the line begins with. -/
def lead : Line → Lead
  | opening severity _ _ => .opening severity
  | subject _ => .subject
  | note _ => .note
  | help _ => .help

/-- The text of the line after its beginning. -/
def rest : Line → String
  | opening _ code message => code.text ++ ("]: " ++ message)
  | subject text | note text | help text => text

/-- The line opens a diagnostic. -/
def IsOpening (l : Line) : Prop :=
  ∃ severity code message, l = opening severity code message

end Line

namespace Renderer

variable {r : Renderer}

/-- The text that a line begins with. -/
def leadText (r : Renderer) : Lead → String
  | .opening severity => r.heading severity ++ "["
  | .subject => "  --> "
  | .note => "   = note: "
  | .help => "   = help: "

/-- The text of a line. -/
def lineText (r : Renderer) (l : Line) : String :=
  r.leadText l.lead ++ l.rest

/-- Nothing that a line begins with is the beginning of what another kind of line begins with. -/
theorem leadText_prefixFree {a b : Lead}
    (h : (r.leadText a).toList <+: (r.leadText b).toList) : a = b := by
  obtain ⟨colour⟩ := r
  cases colour <;> rcases a with (_ | _ | _ | _) | _ | _ | _ <;>
    rcases b with (_ | _ | _ | _) | _ | _ | _ <;>
    simp [leadText, heading, colourOf, Severity.name] at h ⊢

end Renderer

/-! ## Each line tells what it is -/

namespace Code

theorem bracket_notMem_text (c : Code) : ']' ∉ c.text.toList :=
  c.notMem_text (fun category => by cases category <;> decide) (by decide)

theorem newline_notMem_text (c : Code) : '\n' ∉ c.text.toList :=
  c.notMem_text (fun category => by cases category <;> decide) (by decide)

end Code

/-- The code ends at the bracket, and so an opening tells the code and the message. -/
theorem Line.opening_rest_inj {code code' : Code} {message message' : String}
    (h : code.text ++ ("]: " ++ message) = code'.text ++ ("]: " ++ message')) :
    code = code' ∧ message = message' := by
  have hlist : code.text.toList ++ ']' :: (':' :: ' ' :: message.toList)
      = code'.text.toList ++ ']' :: (':' :: ' ' :: message'.toList) := by
    simpa [← String.toList_inj] using h
  obtain ⟨hcode, hmessage⟩ :=
    append_separator_inj code.bracket_notMem_text code'.bracket_notMem_text hlist
  simp only [List.cons.injEq, true_and] at hmessage
  exact ⟨Code.text_inj (String.toList_inj.1 hcode), String.toList_inj.1 hmessage⟩

theorem Renderer.lineText_inj {r : Renderer} {l l' : Line} (h : r.lineText l = r.lineText l') :
    l = l' := by
  have hlist : (r.leadText l.lead).toList ++ l.rest.toList
      = (r.leadText l'.lead).toList ++ l'.rest.toList := by
    simpa [lineText, ← String.toList_inj] using h
  obtain ⟨hlead, hrest⟩ :=
    append_code_inj (f := fun a => (r.leadText a).toList) leadText_prefixFree hlist
  have hrest := String.toList_inj.1 hrest
  cases l with
  | opening severity code message =>
    cases l' with
    | opening severity' code' message' =>
      obtain ⟨rfl, rfl⟩ := Line.opening_rest_inj hrest
      cases hlead
      rfl
    | _ => cases hlead
  | subject text | note text | help text =>
    cases l' <;> cases hlead
    exact congrArg _ hrest

/-! ## The lines of diagnostics -/

namespace Diagnostic

/-- The texts of a diagnostic. -/
def texts (d : Diagnostic) : List String :=
  d.message :: (d.subject.toList ++ d.notes ++ d.help)

/-- The lines of a diagnostic after the first one. -/
def details (d : Diagnostic) : List Line :=
  d.subject.toList.map .subject ++ (d.notes.map .note ++ d.help.map .help)

/-- The lines of a diagnostic. -/
def written (d : Diagnostic) : List Line :=
  .opening d.severity d.code d.message :: d.details

variable {d e : Diagnostic} {l : Line}

theorem not_isOpening_of_mem_details (hl : l ∈ d.details) : ¬ l.IsOpening := by
  rintro ⟨severity, code, message, rfl⟩
  simp [details] at hl

/-- The subject, the notes and the suggestions follow each other, and so their lines tell them. -/
theorem details_inj (h : d.details = e.details) :
    d.subject = e.subject ∧ d.notes = e.notes ∧ d.help = e.help := by
  have hafter : ∀ (f : Diagnostic),
      ∀ l ∈ (f.notes.map Line.note ++ f.help.map Line.help).head?, ¬ ∃ t, l = .subject t := by
    rintro f l hl ⟨t, rfl⟩
    simpa using List.mem_of_mem_head? hl
  have hlast : ∀ (f : Diagnostic), ∀ l ∈ (f.help.map Line.help).head?, ¬ ∃ t, l = .note t := by
    rintro f l hl ⟨t, rfl⟩
    simpa using List.mem_of_mem_head? hl
  obtain ⟨hsubject, hrest⟩ := append_sort_inj (p := fun l => ∃ t, l = .subject t) h
    (by simp) (by simp) (hafter d) (hafter e)
  obtain ⟨hnotes, hhelp⟩ := append_sort_inj (p := fun l => ∃ t, l = .note t) hrest
    (by simp) (by simp) (hlast d) (hlast e)
  refine ⟨?_, ?_, ?_⟩
  · have htexts := List.map_injective_iff.2 (fun _ _ => Line.subject.inj) hsubject
    simpa using congrArg List.head? htexts
  · exact List.map_injective_iff.2 (fun _ _ => Line.note.inj) hnotes
  · exact List.map_injective_iff.2 (fun _ _ => Line.help.inj) hhelp

/-- An opening starts each diagnostic and stands nowhere else, and so the lines of several
diagnostics tell them. -/
theorem flatMap_written_inj {ds es : List Diagnostic}
    (h : ds.flatMap written = es.flatMap written) : ds = es := by
  have hopening : ∀ (fs : List Diagnostic), ∀ l ∈ (fs.flatMap written).head?, ¬ ¬ l.IsOpening := by
    intro fs l hl
    cases fs with
    | nil => cases hl
    | cons f fs =>
      cases hl
      exact not_not_intro ⟨_, _, _, rfl⟩
  induction ds generalizing es with
  | nil =>
    cases es with
    | nil => rfl
    | cons e es => cases h
  | cons d ds ih =>
    cases es with
    | nil => cases h
    | cons e es =>
      obtain ⟨hline, hrest⟩ := List.cons.inj h
      obtain ⟨hdetails, hafter⟩ := append_sort_inj hrest
        (fun _ => not_isOpening_of_mem_details) (fun _ => not_isOpening_of_mem_details)
        (hopening ds) (hopening es)
      obtain ⟨hsubject, hnotes, hhelp⟩ := details_inj hdetails
      obtain ⟨severity, code, message, subject, notes, help⟩ := d
      cases hline
      cases hsubject
      cases hnotes
      cases hhelp
      rw [ih hafter]

/-- The texts of the lines are free of newlines if the texts of the diagnostic are. -/
theorem newline_notMem_rest (h : ∀ t ∈ d.texts, '\n' ∉ t.toList) (hl : l ∈ d.written) :
    '\n' ∉ l.rest.toList := by
  rcases List.mem_cons.1 hl with rfl | hl
  · have hmessage := h d.message (by simp [texts])
    simpa [Line.rest, hmessage] using d.code.newline_notMem_text
  · simp only [details, List.mem_append, List.mem_map] at hl
    obtain ⟨t, ht, rfl⟩ | ⟨t, ht, rfl⟩ | ⟨t, ht, rfl⟩ := hl <;>
      exact h t (by simp [texts, ht])

end Diagnostic

/-! ## The text of diagnostics -/

namespace Renderer

variable {r : Renderer}

theorem lines_eq (d : Diagnostic) : r.lines d = d.written.map r.lineText := by
  simp [lines, Diagnostic.written, Diagnostic.details, lineText, leadText, Line.lead, Line.rest,
    String.append_assoc, Function.comp_def]

theorem renderAll_eq (ds : List Diagnostic) :
    r.renderAll ds
      = String.join (((ds.flatMap Diagnostic.written).map r.lineText).map (· ++ "\n")) := by
  rw [← String.toList_inj]
  simp [renderAll, render, lines_eq, String.toList_join, List.flatMap_assoc, List.map_flatMap,
    List.flatMap_map]

theorem newline_notMem_lineText {l : Line} (h : '\n' ∉ l.rest.toList) :
    '\n' ∉ (r.lineText l).toList := by
  have hlead : '\n' ∉ (r.leadText l.lead).toList := by
    obtain ⟨colour⟩ := r
    cases colour <;> rcases l.lead with (_ | _ | _ | _) | _ | _ | _ <;>
      simp [leadText, heading, colourOf, Severity.name]
  simpa [lineText] using ⟨hlead, h⟩

/-- Diagnostics that are written the same are the same, in number and in all of their parts, as long
as none of their texts has a newline in it.  The texts may look like any part of what is written. -/
theorem renderAll_inj (r : Renderer) {ds es : List Diagnostic}
    (hds : ∀ d ∈ ds, ∀ t ∈ d.texts, '\n' ∉ t.toList)
    (hes : ∀ e ∈ es, ∀ t ∈ e.texts, '\n' ∉ t.toList)
    (h : r.renderAll ds = r.renderAll es) : ds = es := by
  have hlines : ∀ {fs : List Diagnostic}, (∀ f ∈ fs, ∀ t ∈ f.texts, '\n' ∉ t.toList) →
      ∀ line ∈ (fs.flatMap Diagnostic.written).map r.lineText, '\n' ∉ line.toList := by
    intro fs hfs line hline
    obtain ⟨l, hl, rfl⟩ := List.mem_map.1 hline
    obtain ⟨f, hf, hl⟩ := List.mem_flatMap.1 hl
    exact newline_notMem_lineText (Diagnostic.newline_notMem_rest (hfs f hf) hl)
  rw [renderAll_eq, renderAll_eq] at h
  have hwritten := join_lines_inj (hlines hds) (hlines hes) h
  exact Diagnostic.flatMap_written_inj
    (List.map_injective_iff.2 (fun _ _ => lineText_inj) hwritten)

/-- A diagnostic whose texts look like what is written around them. -/
def imitating : Diagnostic :=
  ((Diagnostic.warning ⟨.warning, 7⟩ "]: error[E001]: ").about "  --> ").withNote "   = help: "

theorem renderAll_inj_imitating :
    (∀ d ∈ [imitating], ∀ t ∈ d.texts, '\n' ∉ t.toList) ∧
      (∀ e ∈ [⟨.warning, ⟨.warning, 7⟩, "]: error[E001]: ", some "  --> ", ["   = help: "], []⟩],
        ∀ t ∈ Diagnostic.texts e, '\n' ∉ t.toList) ∧
      [imitating]
        = [⟨.warning, ⟨.warning, 7⟩, "]: error[E001]: ", some "  --> ", ["   = help: "], []⟩] := by
  have hplain : ∀ d ∈ [imitating], ∀ t ∈ d.texts, '\n' ∉ t.toList := by decide
  exact ⟨hplain, hplain, renderAll_inj ⟨true⟩ hplain hplain rfl⟩

end Renderer

end Interconnect

import Extraction.Record
import Extraction.Proofs.Json.Complete
import Extraction.Proofs.Json.Pretty
import Extraction.Proofs.Json.Sound.Value

/-!
# What a printed document is made of

The indented text of a container begins and ends with brackets. So when it can
be read, it is one value of the grammar: there is no white space around it, and
nothing else. With the end of the line it is a document for the reader and for
the gate.
-/

namespace Extraction.Json

open Gate (Bracket)

/-- There is no white space in front of a document that does not begin with any. -/
theorem Document.before_eq_nil {d : Document Char} {c : Char} {rest : List Char}
    (h : d.written = c :: rest) (hc : isSpace c = false) : d.before = [] := by
  cases hbefore : d.before with
  | nil => rfl
  | cons blank before =>
      rw [Document.written, hbefore, writeSpace_cons, List.cons_append] at h
      have hblank := isSpace_blank blank
      rw [ascii_eq] at h
      rw [List.head_eq_of_cons_eq h, hc] at hblank
      cases hblank

/-- There is none behind a document that does not end with any. -/
theorem Document.after_eq_nil {d : Document Char} {c : Char} {front : List Char}
    (h : d.written = front ++ [c]) (hc : isSpace c = false) : d.after = [] := by
  rcases List.eq_nil_or_concat d.after with hnil | ⟨after, blank, hafter⟩
  · exact hnil
  · have hblank := isSpace_blank blank
    have hlast := congrArg List.getLast? h
    rw [Document.written, hafter, List.concat_eq_append, writeSpace_append, writeSpace_cons,
      writeSpace_nil, ascii_eq, ← List.append_assoc, ← List.append_assoc,
      List.getLast?_concat, List.getLast?_concat, Option.some_inj] at hlast
    rw [hlast, hc] at hblank
    cases hblank

/-- What can be read and has no white space at its ends is one value of the grammar. -/
theorem exists_phrase_of_parse {first last : Char} {middle : List Char} {v : Value}
    (hfirst : isSpace first = false) (hlast : isSpace last = false)
    (h : parse (String.ofList (first :: (middle ++ [last]))) = .ok v) :
    ∃ phrase : Phrase Char .value, phrase.written = first :: (middle ++ [last]) := by
  obtain ⟨d, hd⟩ := exists_document_of_parse h
  rw [String.toList_ofList] at hd
  refine ⟨d.value, ?_⟩
  have hbefore := Document.before_eq_nil hd hfirst
  have hafter := Document.after_eq_nil (hd.trans List.cons_append.symm) hlast
  rw [← hd, Document.written, hbefore, hafter, writeSpace_nil, List.nil_append, List.append_nil]

/-- The indented text of a container stands between its brackets. -/
theorem exists_brackets {v : Value} (hcontainer : 0 < v.depth) (level : Nat) :
    ∃ (b : Bracket) (middle : List Char),
      v.pretty level = opening b :: (middle ++ [closing b]) := by
  cases v with
  | array items =>
      obtain ⟨w, _, htext⟩ := pretty_array level items
      exact ⟨.array, _, by rw [htext, ← List.append_assoc]; rfl⟩
  | object members =>
      obtain ⟨w, _, htext⟩ := pretty_object level members
      exact ⟨.object, _, by rw [htext, ← List.append_assoc]; rfl⟩
  | _ => cases hcontainer

/-- The indented text of a container that can be read is one value of the grammar. -/
theorem exists_phrase_of_reads {v read : Value} (hcontainer : 0 < v.depth)
    (h : Reads (value deepest).run (v.pretty 0) read) :
    ∃ phrase : Phrase Char .value, phrase.written = v.pretty 0 := by
  obtain ⟨b, middle, htext⟩ := exists_brackets hcontainer 0
  have hparse := parse_of_reads h allSpace_nil
  rw [List.append_nil, htext] at hparse
  rw [htext]
  cases b
  · exact exists_phrase_of_parse rfl rfl hparse
  · exact exists_phrase_of_parse rfl rfl hparse

/-- A text that is one value of the grammar and a line end, which the reader takes as text and the
gate as octets. -/
structure IsDocumentLine (text : String) : Prop where
  written : ∃ phrase : Phrase Char .value, text.toList = phrase.written ++ ['\n']
  decoded : ∃ v, (Source.text text).decode = .ok v
  accepted : isDocument (Octets.ofString text) = true

theorem isDocumentLine_prettyText {v read : Value} (hcontainer : 0 < v.depth)
    (h : Reads (value deepest).run (v.pretty 0) read) : IsDocumentLine v.prettyText := by
  obtain ⟨phrase, hphrase⟩ := exists_phrase_of_reads hcontainer h
  have hparse := parse_prettyText_of_reads h
  refine ⟨⟨phrase, ?_⟩, ⟨read, ?_⟩, ?_⟩
  · rw [Value.prettyText, String.toList_ofList, hphrase]
  · rw [Source.decode, hparse]
    rfl
  · exact isDocument_ofString_iff.mpr (exists_document_of_parse hparse)

theorem IsDocumentLine.ne_empty {text : String} (h : IsDocumentLine text) : text ≠ "" := by
  obtain ⟨phrase, hwritten⟩ := h.written
  intro hempty
  rw [hempty] at hwritten
  exact absurd hwritten.symm (List.concat_ne_nil _ _)

end Extraction.Json

import Extraction.Record
import Extraction.Proofs.Json.Complete
import Extraction.Proofs.Json.Sound.Value

/-!
# The reader and the gate

What is decoded has passed the gate, as both follow one grammar. What has passed
the gate is decoded unless it nests too deep, holds a surrogate on its own, or a
number that is no short integer.
-/

namespace Extraction.Source

open Json

/-- A text that is decoded is a document, and one that is a document is decoded when it keeps to
what building its value asks for. -/
theorem decode_text_agrees_with_gate (t : String) :
    ((∃ v, (text t).decode = .ok v) → isDocument (Octets.ofString t) = true) ∧
    (isDocument (Octets.ofString t) = true →
      (∃ d : Document Char, d.written = t.toList) ∧
      ∀ d : Document Char, d.written = t.toList → d.value.nesting ≤ 127 → d.value.Modest →
        ∃ v, (text t).decode = .ok v) := by
  constructor
  · rintro ⟨v, hdecode⟩
    exact isDocument_ofString_iff.mpr (exists_document_of_parse (ok_of_mapError hdecode))
  · intro hgate
    refine ⟨isDocument_ofString_iff.mp hgate, fun d hd hdepth hmodest => ?_⟩
    obtain ⟨v, hparse⟩ := exists_parse_of_modest hmodest hdepth
    rw [hd, String.ofList_toList] at hparse
    exact ⟨v, by rw [decode, hparse]; rfl⟩

/-- The document `{ "k\ud83d\uDE00": [null, -10]}` and the end of its line. -/
def pairedInList : Document Char where
  before := []
  value := .container .object <| .last <| .member [⟨' ', by decide⟩] [
      .plain 'k' (by decide) (by decide) (by decide),
      .unit ⟨'d', by decide⟩ ⟨'8', by decide⟩ ⟨'3', by decide⟩ ⟨'d', by decide⟩,
      .unit ⟨'D', by decide⟩ ⟨'E', by decide⟩ ⟨'0', by decide⟩ ⟨'0', by decide⟩]
    [] [⟨' ', by decide⟩]
    (.container .array <| .more (.element [] (.keyword .null) []) <| .last <|
      .element [⟨' ', by decide⟩]
        (.number ⟨true, .digits ⟨'1', by decide⟩ [⟨'0', by decide⟩], none, none⟩) []) []
  after := [⟨'\n', by decide⟩]

theorem modest_pairedInList : pairedInList.value.Modest where
  literals := by
    refine List.forall_mem_singleton.mpr ⟨⟨rfl, rfl⟩, by decide⟩
  bodies := by
    refine List.forall_mem_singleton.mpr (.single ?_ ?_ (.pair ?_ ?_ .nil))
    · rintro ⟨_, ⟨⟩, _⟩
    · rintro ⟨_, ⟨⟩, _⟩
    · exact ⟨0xD83D, by decide, by decide⟩
    · exact ⟨0xDE00, by decide, by decide⟩

theorem decode_text_agrees_with_gate_pairedInList :
    isDocument (Octets.ofString (String.ofList pairedInList.written)) = true ∧
      ∃ v, (text (String.ofList pairedInList.written)).decode = .ok v := by
  have hwritten : pairedInList.written = (String.ofList pairedInList.written).toList :=
    String.toList_ofList.symm
  have hgate := isDocument_ofString_iff.mpr ⟨pairedInList, hwritten⟩
  have hdecode := ((decode_text_agrees_with_gate _).2 hgate).2 pairedInList hwritten (by decide)
    modest_pairedInList
  exact ⟨(decode_text_agrees_with_gate _).1 hdecode, hdecode⟩

end Extraction.Source

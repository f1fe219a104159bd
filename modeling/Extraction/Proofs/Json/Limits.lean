import Extraction.Json.Document
import Extraction.Proofs.Json.Range

/-!
# What building values asks of a phrase

Not every document is read: values are built, so containers may not nest too
deep, surrogates must come in pairs and numbers must be in range.
-/

namespace Extraction.Json

section Fits

variable {α : Type} [Alphabet α]

/-- The sixteen bit unit a piece of a string is the escape of. -/
def Piece.unit? : Piece α → Option Nat
  | unit a b c d => hexGroup? a.1 b.1 c.1 d.1
  | _ => none

def Piece.IsHigh (piece : Piece α) : Prop := ∃ unit ∈ piece.unit?, isHighSurrogate unit = true

def Piece.IsLow (piece : Piece α) : Prop := ∃ unit ∈ piece.unit?, isLowSurrogate unit = true

/-- Each escape of a high surrogate has one of a low surrogate right behind it, and no other escape
is that of a low surrogate. -/
inductive Paired : Body α → Prop
  | nil : Paired []
  | single {piece : Piece α} {body : Body α} : ¬ piece.IsHigh → ¬ piece.IsLow → Paired body →
      Paired (piece :: body)
  | pair {high low : Piece α} {body : Body α} : high.IsHigh → low.IsLow → Paired body →
      Paired (high :: low :: body)

/-- A phrase with all numbers in range and all surrogates paired, in which containers nest at most
so deep. -/
structure Phrase.Fits (depth : Nat) {p : Part} (phrase : Phrase α p) : Prop where
  literals : ∀ n ∈ phrase.literals, n.InRange
  bodies : ∀ body ∈ phrase.bodies, Paired body
  nesting : phrase.nesting ≤ depth

variable {depth : Nat}

theorem fits_number {n : Literal} (h : n.InRange) :
    (Phrase.number n : Phrase α .value).Fits depth :=
  ⟨List.forall_mem_singleton.mpr h, List.forall_mem_nil _, Nat.zero_le _⟩

theorem fits_string {body : Body α} (h : Paired body) :
    (Phrase.string body : Phrase α .value).Fits depth :=
  ⟨List.forall_mem_nil _, List.forall_mem_singleton.mpr h, Nat.zero_le _⟩

theorem fits_keyword (word : Keyword) : (Phrase.keyword word : Phrase α .value).Fits depth :=
  ⟨List.forall_mem_nil _, List.forall_mem_nil _, Nat.zero_le _⟩

theorem fits_empty (b : Gate.Bracket) (space : List Blank) :
    (Phrase.empty b space : Phrase α .value).Fits (depth + 1) :=
  ⟨List.forall_mem_nil _, List.forall_mem_nil _, Nat.succ_le_succ (Nat.zero_le _)⟩

theorem fits_container {b : Gate.Bracket} {entries : Phrase α (.entries b)}
    (h : entries.Fits depth) : (Phrase.container b entries).Fits (depth + 1) :=
  ⟨h.literals, h.bodies, Nat.succ_le_succ h.nesting⟩

theorem fits_element {value : Phrase α .value} (h : value.Fits depth)
    (before after : List Blank) : (Phrase.element before value after).Fits depth :=
  ⟨h.literals, h.bodies, h.nesting⟩

theorem fits_member {key : Body α} {value : Phrase α .value} (hkey : Paired key)
    (h : value.Fits depth) (before beforeColon afterColon after : List Blank) :
    (Phrase.member before key beforeColon afterColon value after).Fits depth :=
  ⟨h.literals, List.forall_mem_cons.mpr ⟨hkey, h.bodies⟩, h.nesting⟩

theorem fits_last {b : Gate.Bracket} {entry : Phrase α (.entry b)} (h : entry.Fits depth) :
    (Phrase.last entry).Fits depth :=
  ⟨h.literals, h.bodies, h.nesting⟩

theorem fits_more {b : Gate.Bracket} {entry : Phrase α (.entry b)}
    {others : Phrase α (.entries b)} (h : entry.Fits depth) (hothers : others.Fits depth) :
    (Phrase.more entry others).Fits depth :=
  ⟨List.forall_mem_append.mpr ⟨h.literals, hothers.literals⟩,
    List.forall_mem_append.mpr ⟨h.bodies, hothers.bodies⟩,
    Nat.max_le.mpr ⟨h.nesting, hothers.nesting⟩⟩

end Fits

end Extraction.Json
